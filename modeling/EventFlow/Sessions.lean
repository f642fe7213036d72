/-
Sessions over whole histories of requests: login, refresh and logout, each as
one step, and the deactivation of an API key.

A session is a family of refresh tokens, of which each is exchanged for the
next. What a history can do to the tokens is little: it clears flags, it opens
a family, and it exchanges a valid token for a new one of the same family
([`AuthTables.serve_effect`]). A cleared flag is never set again, so a family
without a valid token is without one for good ([`DeadFamily.reaches`]). From there:

* a token that is presented to a refresh after it was exchanged or logged out
  ends its family and no other ([`reuse_ends_family`]);
* a logout ends the family of its token if that token is valid, and otherwise
  only if the family has ended already ([`logout_ends_family_iff`]): a logout
  with a token that someone has exchanged before leaves the session running;
* a refresh never looks at the API key ([`issued_to_active_iff`]).
-/
import EventFlow.RefreshTokens
import EventFlow.Library.History

set_option autoImplicit false

namespace EventFlow

open Transition

/-! ## Requests -/

/-- A request together with what it draws: `raw` from `secrets.token_urlsafe`,
`family_id` from `uuid.uuid4`, `now` from the clock. -/
inductive AuthRequest where
  | login (api_key raw : String) (family_id now : ℕ)
  | refresh (cookie : Option String) (body : Option (Option String)) (raw : String) (now : ℕ)
  | logout (cookie : Option String)
  /-- An operator revokes a key. -/
  | deactivate (api_key_id : ℕ)

/-- `is_active = False` on a key. -/
def deactivate_api_key (keys : List APIKey) (id : ℕ) : List APIKey :=
  keys.map fun key => if key.id = id then { key with is_active := false } else key

/-- The token a refresh looks up: the cookie, or else the body. -/
def presented (cookie : Option String) (body : Option (Option String)) : Option String :=
  (truthy cookie).or (truthy body.join)

namespace AuthTables

variable (env : AuthEnv)

/-- The tables after a request. -/
def serve (db : AuthTables) : AuthRequest → AuthTables
  | .login api_key raw family_id now => (login_for_access_token env db api_key raw family_id now).2
  | .refresh cookie body raw now => (refresh_access_token env db cookie body raw now).2
  | .logout cookie => logout env db cookie
  | .deactivate api_key_id => { db with api_keys := deactivate_api_key db.api_keys api_key_id }

/-- Every request is served. -/
def step (db : AuthTables) (req : AuthRequest) : Option AuthTables := some (db.serve env req)

/-- What a login or a refresh answers. -/
def answer (db : AuthTables) : AuthRequest → Option (Except AuthError TokenResponse)
  | .login api_key raw family_id now =>
    some (login_for_access_token env db api_key raw family_id now).1
  | .refresh cookie body raw now => some (refresh_access_token env db cookie body raw now).1
  | .logout _ => none
  | .deactivate _ => none

/-- What a request draws is new: a token is not empty and hashes to a value that
is not stored, an id of a family is not in use. -/
def draws_fresh (db : AuthTables) : AuthRequest → Bool
  | .login _ raw family_id _ =>
    decide (raw ≠ "" ∧ env.sha256 raw ∉ db.refresh_tokens.map RefreshToken.token_hash ∧
      family_id ∉ db.refresh_tokens.map RefreshToken.family_id)
  | .refresh _ _ raw _ =>
    decide (raw ≠ "" ∧ env.sha256 raw ∉ db.refresh_tokens.map RefreshToken.token_hash)
  | .logout _ => true
  | .deactivate _ => true

/-- The histories that lead from one state of the tables to another. -/
abbrev Serves : AuthTables → AuthTables → Prop :=
  Reaches (step env) fun db req => db.draws_fresh env req = true

end AuthTables

/-! ## What a request does to the tokens -/

/-- `is_valid = False` on the rows that `p` selects. -/
def clear (p : RefreshToken → Prop) [DecidablePred p] (tokens : List RefreshToken) :
    List RefreshToken :=
  tokens.map fun row => if p row then { row with is_valid := false } else row

section Clear

variable {p : RefreshToken → Prop} [DecidablePred p] {tokens : List RefreshToken}
  {row : RefreshToken}

theorem invalidate_eq_clear (tokens : List RefreshToken) (token_hashes : List String) :
    invalidate tokens token_hashes = clear (fun row => row.token_hash ∈ token_hashes) tokens := rfl

theorem revoke_family_eq_clear (tokens : List RefreshToken) (family_id : ℕ) :
    revoke_family tokens family_id = clear (fun row => row.family_id = family_id) tokens := rfl

theorem clear_false (tokens : List RefreshToken) : clear (fun _ => False) tokens = tokens :=
  List.map_id' tokens

/-- Only the flag of a row changes. -/
theorem map_clear {β : Type} (f : RefreshToken → β)
    (hf : ∀ row : RefreshToken, f { row with is_valid := false } = f row) :
    (clear p tokens).map f = tokens.map f := by
  unfold clear
  rw [List.map_map]
  apply List.map_congr_left
  intro row _
  show f (if p row then _ else _) = _
  split
  · exact hf row
  · rfl

/-- A row after the update is a row from before, and if it is valid it is that
row. -/
theorem exists_of_mem_clear (h : row ∈ clear p tokens) :
    ∃ row₀ ∈ tokens, row₀.token_hash = row.token_hash ∧ row₀.family_id = row.family_id ∧
      (row.is_valid = true → row₀ = row ∧ ¬ p row) := by
  obtain ⟨row₀, hmem, rfl⟩ := List.mem_map.mp h
  refine ⟨row₀, hmem, ?_⟩
  by_cases hp : p row₀
  · rw [if_pos hp]
    refine ⟨rfl, rfl, ?_⟩
    intro hvalid
    cases hvalid
  · rw [if_neg hp]
    exact ⟨rfl, rfl, fun _ => ⟨rfl, hp⟩⟩

/-- The row under a hash after the update. -/
theorem select_clear (token_hash : String) :
    select_refresh_token (clear p tokens) token_hash
      = (select_refresh_token tokens token_hash).map
          fun row => if p row then { row with is_valid := false } else row := by
  unfold select_refresh_token clear
  rw [List.find?_map]
  -- the test does not look at the flag
  congr 2
  funext row
  show decide ((if p row then _ else _ : RefreshToken).token_hash = token_hash) = _
  split <;> rfl

end Clear

/-- How a refresh ends, with what it has found before. -/
inductive RefreshOutcome (env : AuthEnv) (db : AuthTables) (cookie : Option String)
    (body : Option (Option String)) (raw : String) (now : ℕ) :
    Except AuthError TokenResponse × AuthTables → Prop
  /-- No token, a token that is not stored, an expired one, or an insert that is
  refused. -/
  | refused (err : AuthError)
      (hlive : ∀ token row, presented cookie body = some token →
        select_refresh_token db.refresh_tokens (env.sha256 token) = some row →
        row.is_valid = true ∧
          (row.expires_at < now ∨
            env.sha256 raw ∈ db.refresh_tokens.map RefreshToken.token_hash))
      (herr : err ≠ .token_reused) :
      RefreshOutcome env db cookie body raw now (.error err, db)
  /-- A stored token that is not valid any more. -/
  | reused (token : String) (db_rt : RefreshToken)
      (hpresented : presented cookie body = some token)
      (hselect : select_refresh_token db.refresh_tokens (env.sha256 token) = some db_rt)
      (hvalid : db_rt.is_valid = false) :
      RefreshOutcome env db cookie body raw now (.error .token_reused,
        { db with refresh_tokens := revoke_family db.refresh_tokens db_rt.family_id })
  /-- A valid token, exchanged for the next one of its family. -/
  | rotated (token : String) (db_rt : RefreshToken)
      (hpresented : presented cookie body = some token)
      (hselect : select_refresh_token db.refresh_tokens (env.sha256 token) = some db_rt)
      (hvalid : db_rt.is_valid = true) (hnow : now ≤ db_rt.expires_at)
      (hfresh : env.sha256 raw ∉ db.refresh_tokens.map RefreshToken.token_hash) :
      RefreshOutcome env db cookie body raw now
        (.ok (token_response env raw db_rt.api_key_id now),
          { db with refresh_tokens := invalidate db.refresh_tokens [db_rt.token_hash] ++
              [new_refresh_token env raw db_rt.family_id db_rt.api_key_id now] })

/-- A rotation is refused exactly when its new hash is stored. -/
theorem rotate_eq (env : AuthEnv) (tokens : List RefreshToken) (db_rt : RefreshToken)
    (raw : String) (now : ℕ) :
    rotate env tokens db_rt raw now
      = if env.sha256 raw ∈ tokens.map RefreshToken.token_hash then .error .integrity_error
        else .ok (invalidate tokens [db_rt.token_hash] ++
          [new_refresh_token env raw db_rt.family_id db_rt.api_key_id now]) := by
  unfold rotate insert_refresh_token
  rw [map_token_hash_invalidate]
  rfl

/-- The inversion of `/auth/refresh`. Each check that fails is a refusal, with the flags
of a whole family cleared if a spent token has been shown; past the checks the row is
exchanged for a new one of the same family. -/
theorem refresh_outcome (env : AuthEnv) (db : AuthTables) (cookie : Option String)
    (body : Option (Option String)) (raw : String) (now : ℕ) :
    RefreshOutcome env db cookie body raw now
      (refresh_access_token env db cookie body raw now) := by
  -- in the order in which the endpoint checks: token, row, flag, expiry, insert
  unfold refresh_access_token check_refresh
  rw [show (truthy cookie).or (truthy body.join) = presented cookie body from rfl]
  cases hpresented : presented cookie body with
  | none =>
      refine .refused _ ?_ ?_
      · intro token row h
        rw [hpresented] at h
        cases h
      · decide
  | some token =>
      dsimp only
      cases hselect : select_refresh_token db.refresh_tokens (env.sha256 token) with
      | none =>
          refine .refused _ ?_ ?_
          · intro token' row h hrow
            rw [hpresented] at h
            cases h
            rw [hselect] at hrow
            cases hrow
          · decide
      | some db_rt =>
          dsimp only
          -- the one stored token this request is about
          have honly : ∀ {P : RefreshToken → Prop}, P db_rt → ∀ token' row,
              presented cookie body = some token' →
              select_refresh_token db.refresh_tokens (env.sha256 token') = some row → P row := by
            intro P hP token' row h hrow
            rw [hpresented] at h
            cases h
            rw [hselect] at hrow
            cases hrow
            exact hP
          by_cases hvalid : db_rt.is_valid = false
          · rw [if_pos hvalid]
            exact .reused token db_rt hpresented hselect hvalid
          rw [if_neg hvalid]
          have htrue : db_rt.is_valid = true := by simpa using hvalid
          by_cases hnow : db_rt.expires_at < now
          · rw [if_pos hnow]
            refine .refused _ (honly ⟨htrue, .inl hnow⟩) ?_
            decide
          rw [if_neg hnow]
          dsimp only
          rw [rotate_eq]
          by_cases hfresh : env.sha256 raw ∈ db.refresh_tokens.map RefreshToken.token_hash
          · rw [if_pos hfresh]
            refine .refused _ (honly ⟨htrue, .inr hfresh⟩) ?_
            decide
          · rw [if_neg hfresh]
            exact .rotated token db_rt hpresented hselect htrue (by omega) hfresh

/-- What a request does to the tokens. -/
inductive SessionEffect (env : AuthEnv) (db : AuthTables) : AuthRequest → List RefreshToken → Prop
  /-- Some flags are cleared, possibly none. -/
  | cleared (req : AuthRequest) (p : RefreshToken → Prop) [DecidablePred p] :
      SessionEffect env db req (clear p db.refresh_tokens)
  /-- A login opens a family. -/
  | opened (api_key raw : String) (family_id now api_key_id : ℕ) :
      SessionEffect env db (.login api_key raw family_id now)
        (db.refresh_tokens ++ [new_refresh_token env raw family_id api_key_id now])
  /-- A refresh exchanges a valid token for the next one of its family. -/
  | rotated (cookie : Option String) (body : Option (Option String)) (raw : String) (now : ℕ)
      (token : String) (db_rt : RefreshToken) (hpresented : presented cookie body = some token)
      (hselect : select_refresh_token db.refresh_tokens (env.sha256 token) = some db_rt)
      (hvalid : db_rt.is_valid = true) :
      SessionEffect env db (.refresh cookie body raw now)
        (invalidate db.refresh_tokens [db_rt.token_hash] ++
          [new_refresh_token env raw db_rt.family_id db_rt.api_key_id now])

section Effects

variable {env : AuthEnv} {db : AuthTables}

theorem SessionEffect.kept (req : AuthRequest) :
    SessionEffect env db req db.refresh_tokens := by
  have h := @SessionEffect.cleared env db req (fun _ => False) _
  rwa [clear_false] at h

/-- A login without a valid key changes no token, and neither does one whose
insert is refused. -/
theorem login_effect (api_key raw : String) (family_id now : ℕ) :
    SessionEffect env db (.login api_key raw family_id now)
      (login_for_access_token env db api_key raw family_id now).2.refresh_tokens := by
  unfold login_for_access_token
  split
  · exact .kept _
  · rename_i db_key _
    dsimp only
    split
    · exact .kept _
    · rename_i tokens hins
      obtain ⟨-, rfl⟩ := insert_refresh_token_ok hins
      exact .opened api_key raw family_id now db_key.id

theorem logout_effect (cookie : Option String) :
    SessionEffect env db (.logout cookie) (logout env db cookie).refresh_tokens := by
  unfold logout
  split
  · exact .kept _
  · unfold log_out
    dsimp only
    split
    · exact .cleared _ _
    · exact .kept _

/-- Everything a request can do to the tokens. -/
theorem AuthTables.serve_effect (req : AuthRequest) :
    SessionEffect env db req (db.serve env req).refresh_tokens := by
  cases req with
  | login api_key raw family_id now => exact login_effect api_key raw family_id now
  | refresh cookie body raw now =>
      have hout := refresh_outcome env db cookie body raw now
      show SessionEffect env db _ (refresh_access_token env db cookie body raw now).2.refresh_tokens
      generalize refresh_access_token env db cookie body raw now = out at hout ⊢
      cases hout with
      | refused err hlive herr => exact .kept _
      | reused token db_rt hpresented hselect hvalid => exact .cleared _ _
      | rotated token db_rt hpresented hselect hvalid hnow hfresh =>
          exact .rotated cookie body raw now token db_rt hpresented hselect hvalid
  | logout cookie => exact logout_effect cookie
  | deactivate api_key_id => exact .kept _

end Effects

/-! ## Tokens that are spent -/

/-- A token that is stored and not valid any more. -/
def SpentToken (tokens : List RefreshToken) (token_hash : String) : Prop :=
  ∃ row, select_refresh_token tokens token_hash = some row ∧ row.is_valid = false

/-- The family of a token that is stored. -/
def AuthTables.family_of (env : AuthEnv) (db : AuthTables) (token : String) : Option ℕ :=
  (select_refresh_token db.refresh_tokens (env.sha256 token)).map RefreshToken.family_id

section Spent

variable {env : AuthEnv} {db db' : AuthTables} {tokens : List RefreshToken} {token_hash : String}

theorem select_append_of_some {row : RefreshToken} (tokens' : List RefreshToken)
    (h : select_refresh_token tokens token_hash = some row) :
    select_refresh_token (tokens ++ tokens') token_hash = some row := by
  unfold select_refresh_token at h ⊢
  rw [List.find?_append, h]
  rfl

/-- A row that is stored stays, in its family, and an invalid one stays
invalid. -/
theorem select_serve {row : RefreshToken}
    (h : select_refresh_token db.refresh_tokens token_hash = some row) (req : AuthRequest) :
    ∃ row', select_refresh_token (db.serve env req).refresh_tokens token_hash = some row' ∧
      row'.family_id = row.family_id ∧ (row.is_valid = false → row'.is_valid = false) := by
  -- clearing flags is all that happens to a row once it is inserted
  have hclear : ∀ (p : RefreshToken → Prop) [DecidablePred p], ∃ row',
      select_refresh_token (clear p db.refresh_tokens) token_hash = some row' ∧
      row'.family_id = row.family_id ∧ (row.is_valid = false → row'.is_valid = false) := by
    intro p _
    rw [select_clear, h]
    refine ⟨_, rfl, ?_, ?_⟩
    · dsimp only
      split <;> rfl
    · intro hinvalid
      dsimp only
      split
      · rfl
      · exact hinvalid
  have heffect := @AuthTables.serve_effect env db req
  generalize (db.serve env req).refresh_tokens = tokens' at heffect ⊢
  cases heffect with
  | cleared _ p => exact hclear p
  | opened api_key raw family_id now api_key_id =>
      exact ⟨row, select_append_of_some _ h, rfl, id⟩
  | rotated cookie body raw now token db_rt hpresented hselect hvalid =>
      obtain ⟨row', hrow', hfamily, hinvalid⟩ :=
        hclear fun row => row.token_hash ∈ [db_rt.token_hash]
      rw [← invalidate_eq_clear] at hrow'
      exact ⟨row', select_append_of_some _ hrow', hfamily, hinvalid⟩

theorem SpentToken.serve (h : SpentToken db.refresh_tokens token_hash) (req : AuthRequest) :
    SpentToken (db.serve env req).refresh_tokens token_hash := by
  obtain ⟨row, hrow, hinvalid⟩ := h
  obtain ⟨row', hrow', -, hkept⟩ := select_serve hrow req
  exact ⟨row', hrow', hkept hinvalid⟩

theorem family_of_serve {token : String} {family_id : ℕ}
    (h : db.family_of env token = some family_id) (req : AuthRequest) :
    (db.serve env req).family_of env token = some family_id := by
  obtain ⟨row, hrow, rfl⟩ := Option.map_eq_some_iff.mp h
  obtain ⟨row', hrow', hfamily, -⟩ := select_serve hrow req
  unfold AuthTables.family_of
  rw [hrow', Option.map_some, hfamily]

/-- A refresh with a spent token takes the branch of a reuse. -/
theorem refresh_of_spent {cookie : Option String} {body : Option (Option String)} {token : String}
    (hpresented : presented cookie body = some token)
    (h : SpentToken db.refresh_tokens (env.sha256 token)) (raw : String) (now : ℕ) :
    ∃ family_id, db.family_of env token = some family_id ∧
      refresh_access_token env db cookie body raw now = (.error .token_reused,
        { db with refresh_tokens := revoke_family db.refresh_tokens family_id }) := by
  obtain ⟨row, hrow, hinvalid⟩ := h
  -- a stored token whose flag is cleared leaves only the branch of a reuse
  have hout := refresh_outcome env db cookie body raw now
  generalize refresh_access_token env db cookie body raw now = out at hout ⊢
  cases hout with
  | refused err hlive herr =>
      have hvalid := (hlive token row hpresented hrow).1
      rw [hinvalid] at hvalid
      cases hvalid
  | reused token' db_rt hpresented' hselect hvalid =>
      rw [hpresented] at hpresented'
      cases hpresented'
      refine ⟨db_rt.family_id, ?_, rfl⟩
      unfold AuthTables.family_of
      rw [hselect, Option.map_some]
  | rotated token' db_rt hpresented' hselect hvalid hnow hfresh =>
      rw [hpresented] at hpresented'
      cases hpresented'
      rw [hrow] at hselect
      cases hselect
      rw [hinvalid] at hvalid
      cases hvalid

end Spent

/-! ## Families that have ended -/

/-- A family that was opened and has no valid token. -/
structure DeadFamily (tokens : List RefreshToken) (family_id : ℕ) : Prop where
  opened : family_id ∈ tokens.map RefreshToken.family_id
  invalid : ∀ row ∈ tokens, row.family_id = family_id → row.is_valid = false

/-- No refresh with a token of the family succeeds from here on, whatever is
requested before it. -/
def AuthTables.RejectsFamily (env : AuthEnv) (db : AuthTables) (family_id : ℕ) : Prop :=
  ∀ db', db.Serves env db' → ∀ cookie body raw now token response,
    presented cookie body = some token → db'.family_of env token = some family_id →
    (refresh_access_token env db' cookie body raw now).1 ≠ .ok response

/-- The family is over: its tokens stay its tokens, none of them is accepted
again, and none is added. -/
structure AuthTables.FamilyEnded (env : AuthEnv) (db : AuthTables) (family_id : ℕ) : Prop where
  stays : ∀ db', db.Serves env db' → ∀ token, db.family_of env token = some family_id →
    db'.family_of env token = some family_id
  rejected : db.RejectsFamily env family_id
  not_issued : ∀ db', db.Serves env db' →
    family_hashes db'.refresh_tokens family_id = family_hashes db.refresh_tokens family_id

section Dead

variable {env : AuthEnv} {db db' : AuthTables} {family_id : ℕ}

theorem family_hashes_clear (p : RefreshToken → Prop) [DecidablePred p]
    (tokens : List RefreshToken) (family_id : ℕ) :
    family_hashes (clear p tokens) family_id = family_hashes tokens family_id := by
  unfold family_hashes clear
  rw [List.filter_map, List.map_map]
  congr 1
  · funext row
    show (if p row then _ else _ : RefreshToken).token_hash = _
    split <;> rfl
  · congr 1
    funext row
    show decide ((if p row then _ else _ : RefreshToken).family_id = family_id) = _
    split <;> rfl

theorem DeadFamily.clear {tokens : List RefreshToken} (h : DeadFamily tokens family_id)
    (p : RefreshToken → Prop) [DecidablePred p] : DeadFamily (clear p tokens) family_id where
  opened := by
    rw [map_clear RefreshToken.family_id fun _ => rfl]
    exact h.opened
  invalid := by
    intro row hrow hfamily
    obtain ⟨row₀, hrow₀, -, hfamily₀, hvalid⟩ := exists_of_mem_clear hrow
    by_contra hne
    rw [Bool.not_eq_false] at hne
    obtain ⟨rfl, -⟩ := hvalid hne
    rw [h.invalid row₀ hrow₀ hfamily] at hne
    cases hne

/-- A token of another family is no concern of the family. -/
theorem DeadFamily.append {tokens : List RefreshToken} (h : DeadFamily tokens family_id)
    {row : RefreshToken} (hne : row.family_id ≠ family_id) :
    DeadFamily (tokens ++ [row]) family_id where
  opened := by
    rw [List.map_append]
    exact List.mem_append_left _ h.opened
  invalid := by
    intro row' hrow' hfamily
    rcases List.mem_append.mp hrow' with hmem | hmem
    · exact h.invalid row' hmem hfamily
    · rw [List.mem_singleton.mp hmem] at hfamily
      exact absurd hfamily hne

theorem family_hashes_append_of_ne (tokens : List RefreshToken) {row : RefreshToken}
    (hne : row.family_id ≠ family_id) :
    family_hashes (tokens ++ [row]) family_id = family_hashes tokens family_id := by
  rw [family_hashes_append, show family_hashes [row] family_id = [] by
    simp [family_hashes, hne], List.append_nil]

/-- A dead family stays dead, and is given no token. -/
theorem DeadFamily.serve (h : DeadFamily db.refresh_tokens family_id) {req : AuthRequest}
    (hfresh : db.draws_fresh env req = true) :
    DeadFamily (db.serve env req).refresh_tokens family_id ∧
      family_hashes (db.serve env req).refresh_tokens family_id
        = family_hashes db.refresh_tokens family_id := by
  have heffect := @AuthTables.serve_effect env db req
  generalize (db.serve env req).refresh_tokens = tokens' at heffect ⊢
  cases heffect with
  | cleared _ p => exact ⟨h.clear p, family_hashes_clear p _ _⟩
  | opened api_key raw opened_id now api_key_id =>
      -- the id of the new family is not in use
      have hne : (new_refresh_token env raw opened_id api_key_id now).family_id ≠ family_id := by
        intro heq
        have hnot := (of_decide_eq_true hfresh).2.2
        rw [show opened_id = family_id from heq] at hnot
        exact hnot h.opened
      exact ⟨h.append hne, family_hashes_append_of_ne _ hne⟩
  | rotated cookie body raw now token db_rt hpresented hselect hvalid =>
      -- what is exchanged is valid, so it is of another family
      have hne : (new_refresh_token env raw db_rt.family_id db_rt.api_key_id now).family_id
          ≠ family_id := by
        intro heq
        rw [h.invalid db_rt (mem_of_select hselect).1 heq] at hvalid
        cases hvalid
      refine ⟨(h.clear _).append hne, ?_⟩
      rw [family_hashes_append_of_ne _ hne, family_hashes_invalidate]

theorem DeadFamily.reaches (h : DeadFamily db.refresh_tokens family_id) (hrun : db.Serves env db') :
    DeadFamily db'.refresh_tokens family_id ∧
      family_hashes db'.refresh_tokens family_id = family_hashes db.refresh_tokens family_id := by
  refine hrun.invariant (fun u => DeadFamily u.refresh_tokens family_id ∧
    family_hashes u.refresh_tokens family_id = family_hashes db.refresh_tokens family_id)
    ⟨h, rfl⟩ ?_
  intro u req v hu hfresh hs
  cases hs
  obtain ⟨hdead, hhashes⟩ := hu.1.serve hfresh
  exact ⟨hdead, hhashes.trans hu.2⟩

/-- No refresh succeeds with a token of a dead family. -/
theorem DeadFamily.not_ok (h : DeadFamily db.refresh_tokens family_id) {cookie : Option String}
    {body : Option (Option String)} {token : String}
    (hpresented : presented cookie body = some token)
    (hfamily : db.family_of env token = some family_id) (raw : String) (now : ℕ)
    (response : TokenResponse) :
    (refresh_access_token env db cookie body raw now).1 ≠ .ok response := by
  obtain ⟨row, hrow, rfl⟩ := Option.map_eq_some_iff.mp hfamily
  have hspent : SpentToken db.refresh_tokens (env.sha256 token) :=
    ⟨row, hrow, h.invalid row (mem_of_select hrow).1 rfl⟩
  obtain ⟨_, -, heq⟩ := refresh_of_spent hpresented hspent raw now
  rw [heq]
  intro hok
  cases hok

/-- **A dead family is over.** The family of a token is fixed, since hashes and families
are never rewritten; a token of a dead family is never valid again, so no refresh accepts
it, and new rows come into a family only by such a refresh. -/
theorem DeadFamily.familyEnded (h : DeadFamily db.refresh_tokens family_id) :
    db.FamilyEnded env family_id where
  stays := by
    intro db' hrun token hfamily
    refine hrun.invariant (fun u => u.family_of env token = some family_id) hfamily ?_
    intro u req v hu _ hs
    cases hs
    exact family_of_serve hu req
  rejected := by
    intro db' hrun cookie body raw now token response hpresented hfamily
    exact (h.reaches hrun).1.not_ok hpresented hfamily raw now response
  not_issued := fun _ hrun => (h.reaches hrun).2

end Dead

/-! ## Reuse -/

/-- What a history remembers of a token. -/
inductive SessionEvent where
  /-- A refresh has exchanged it. -/
  | exchanged (token : String)
  /-- A logout has ended it. -/
  | left (token : String)
deriving DecidableEq

/-- The token that a refresh exchanges. -/
def AuthTables.exchanged (env : AuthEnv) (db : AuthTables) (cookie : Option String)
    (body : Option (Option String)) (raw : String) (now : ℕ) : Option String :=
  if (refresh_access_token env db cookie body raw now).1.isOk then presented cookie body else none

/-- The token of a logout, if it is stored. -/
def AuthTables.left (env : AuthEnv) (db : AuthTables) (cookie : Option String) : Option String :=
  (truthy cookie).filter fun token =>
    (select_refresh_token db.refresh_tokens (env.sha256 token)).isSome

def AuthTables.events (env : AuthEnv) (db : AuthTables) (req : AuthRequest) (_ : AuthTables) :
    List SessionEvent :=
  match req with
  | .login _ _ _ _ => []
  | .refresh cookie body raw now =>
    (db.exchanged env cookie body raw now).toList.map .exchanged
  | .logout cookie => (db.left env cookie).toList.map .left
  | .deactivate _ => []

/-- The histories, with what they remember. -/
abbrev AuthTables.ServesLogged (env : AuthEnv) :
    AuthTables × List SessionEvent → AuthTables × List SessionEvent → Prop :=
  Logged (AuthTables.step env) (AuthTables.events env) fun db req => db.draws_fresh env req = true

section Reuse

variable {env : AuthEnv} {db db' : AuthTables} {log log' : List SessionEvent}

/-- A token that is exchanged is spent afterwards. -/
theorem spent_of_exchanged {cookie : Option String} {body : Option (Option String)}
    {raw token : String} {now : ℕ} (h : db.exchanged env cookie body raw now = some token) :
    SpentToken (refresh_access_token env db cookie body raw now).2.refresh_tokens
      (env.sha256 token) := by
  unfold AuthTables.exchanged at h
  have hout := refresh_outcome env db cookie body raw now
  generalize refresh_access_token env db cookie body raw now = out at hout h ⊢
  cases hout with
  | refused err hlive herr => cases h
  | reused token' db_rt hpresented hselect hvalid => cases h
  | rotated token' db_rt hpresented hselect hvalid hnow hfresh =>
      change presented cookie body = some token at h
      rw [hpresented, Option.some.injEq] at h
      subst h
      have hcleared := @select_clear (fun row => row.token_hash ∈ [db_rt.token_hash]) _
        db.refresh_tokens (env.sha256 token')
      rw [← invalidate_eq_clear, hselect, Option.map_some,
        if_pos (List.mem_singleton_self _)] at hcleared
      exact ⟨_, select_append_of_some _ hcleared, rfl⟩

/-- A token that is logged out is spent afterwards. -/
theorem spent_of_left {cookie : Option String} {token : String}
    (h : db.left env cookie = some token) :
    SpentToken (logout env db cookie).refresh_tokens (env.sha256 token) := by
  obtain ⟨htoken, hstored⟩ := Option.filter_eq_some_iff.mp h
  obtain ⟨db_rt, hselect⟩ := Option.isSome_iff_exists.mp hstored
  have hcheck : check_logout env db.refresh_tokens cookie = some db_rt := by
    unfold check_logout
    rw [htoken]
    exact hselect
  unfold logout
  rw [hcheck]
  unfold log_out
  dsimp only
  by_cases hvalid : db_rt.is_valid = true
  · rw [if_pos hvalid, invalidate_eq_clear]
    have hcleared := @select_clear (fun row => row.token_hash ∈ [db_rt.token_hash]) _
      db.refresh_tokens (env.sha256 token)
    rw [hselect, Option.map_some, if_pos (List.mem_singleton_self _)] at hcleared
    exact ⟨_, hcleared, rfl⟩
  · rw [if_neg hvalid]
    exact ⟨db_rt, hselect, by simpa using hvalid⟩

/-- The token an event is about. -/
def SessionEvent.token : SessionEvent → String
  | .exchanged token => token
  | .left token => token

/-- **What was exchanged or logged out stays spent.** An exchange clears the flag of the
token that was presented, and so does a logout; rows are not deleted and flags not set
again. -/
theorem spent_of_log {db₀ : AuthTables} (hrun : AuthTables.ServesLogged env (db₀, []) (db, log))
    {event : SessionEvent} (hevent : event ∈ log) :
    SpentToken db.refresh_tokens (env.sha256 event.token) := by
  have hinv := hrun.invariant
    (fun s => ∀ event ∈ s.2, SpentToken s.1.refresh_tokens (env.sha256 event.token))
    (List.forall_mem_nil _) ?_
  · exact hinv event hevent
  intro s req s' hs _ hstep event hmem
  -- what is in the log stays spent, and what is added has just been spent
  obtain ⟨hserve, hlog⟩ := logged_eq_some_iff.mp hstep
  have hserved : s'.1 = s.1.serve env req := (Option.some.inj hserve).symm
  rw [hserved]
  rw [hlog] at hmem
  rcases List.mem_append.mp hmem with hold | hnew
  · exact (hs event hold).serve req
  · cases req with
    | login api_key raw family_id now => cases hnew
    | refresh cookie body raw now =>
        obtain ⟨token, htoken, rfl⟩ := List.mem_map.mp hnew
        exact spent_of_exchanged (Option.mem_toList.mp htoken)
    | logout cookie =>
        obtain ⟨token, htoken, rfl⟩ := List.mem_map.mp hnew
        exact spent_of_left (Option.mem_toList.mp htoken)
    | deactivate api_key_id => cases hnew

/-- The revocation of a family kills it. -/
theorem dead_revoke_family {tokens : List RefreshToken} {row : RefreshToken} (h : row ∈ tokens) :
    DeadFamily (revoke_family tokens row.family_id) row.family_id where
  opened := by
    rw [revoke_family_eq_clear, map_clear RefreshToken.family_id fun _ => rfl]
    exact List.mem_map_of_mem h
  invalid := by
    intro row' hrow' hfamily
    rw [revoke_family_eq_clear] at hrow'
    obtain ⟨_, -, -, -, hkept⟩ := exists_of_mem_clear hrow'
    by_contra hne
    rw [Bool.not_eq_false] at hne
    exact (hkept hne).2 hfamily

/-- It touches no other family. -/
theorem filter_revoke_family (tokens : List RefreshToken) (family_id : ℕ) :
    (revoke_family tokens family_id).filter (fun row => decide (row.family_id ≠ family_id))
      = tokens.filter fun row => decide (row.family_id ≠ family_id) := by
  unfold revoke_family
  induction tokens with
  | nil => rfl
  | cons row tokens ih =>
      rw [List.map_cons, List.filter_cons, List.filter_cons, ih]
      by_cases hfamily : row.family_id = family_id
      · simp [hfamily]
      · simp [hfamily]

/-- **Reuse ends a family, and only that one.** After any history, no refresh succeeds
with a token that a refresh has exchanged before. A token that was exchanged or logged out
is answered with `token_reused`; from then on no token of its family is accepted and none
is issued, and the rows of all other families are what they were. A token in the log is
spent ([`spent_of_log`]): its row is there and its flag is cleared. When it is presented
to a refresh, the check of the flag fails, and that branch clears the flags of the whole
family. So the family is dead, and a dead family is over ([`DeadFamily.familyEnded`]).
Rows of other families are not touched. -/
theorem reuse_ends_family (env : AuthEnv) (db₀ db : AuthTables) (log : List SessionEvent)
    (hrun : AuthTables.ServesLogged env (db₀, []) (db, log)) :
    (∀ cookie body raw now token, db.exchanged env cookie body raw now = some token →
      SessionEvent.exchanged token ∉ log) ∧
    ∀ cookie body raw now token, presented cookie body = some token →
      (SessionEvent.exchanged token ∈ log ∨ SessionEvent.left token ∈ log) →
      ∃ family_id db', db.family_of env token = some family_id ∧
        refresh_access_token env db cookie body raw now = (.error .token_reused, db') ∧
        db'.FamilyEnded env family_id ∧
        (∀ token', db.family_of env token' = some family_id →
          db'.family_of env token' = some family_id) ∧
        family_hashes db'.refresh_tokens family_id = family_hashes db.refresh_tokens family_id ∧
        db'.refresh_tokens.filter (fun row => decide (row.family_id ≠ family_id))
          = db.refresh_tokens.filter (fun row => decide (row.family_id ≠ family_id)) := by
  constructor
  · intro cookie body raw now token hexchanged hmem
    have hspent : SpentToken db.refresh_tokens (env.sha256 token) := spent_of_log hrun hmem
    unfold AuthTables.exchanged at hexchanged
    split at hexchanged
    · rename_i hok
      obtain ⟨_, -, heq⟩ := refresh_of_spent hexchanged hspent raw now
      rw [heq] at hok
      cases hok
    · cases hexchanged
  · intro cookie body raw now token hpresented hmem
    have hspent : SpentToken db.refresh_tokens (env.sha256 token) := by
      rcases hmem with hmem | hmem
      · exact spent_of_log hrun hmem
      · exact spent_of_log hrun hmem
    obtain ⟨family_id, hfamily, heq⟩ := refresh_of_spent hpresented hspent raw now
    -- the branch revokes the family; all that is said of it follows from that
    refine ⟨family_id, _, hfamily, heq, ?_, ?_, ?_, filter_revoke_family _ _⟩
    · obtain ⟨row, hrow, rfl⟩ := Option.map_eq_some_iff.mp hfamily
      apply DeadFamily.familyEnded
      exact dead_revoke_family (mem_of_select hrow).1
    · intro token' htoken'
      have hserve := family_of_serve htoken' (.refresh cookie body raw now)
      change (refresh_access_token env db cookie body raw now).2.family_of env token'
        = some family_id at hserve
      rwa [heq] at hserve
    · exact family_hashes_clear _ _ _

/-- The token `t0` has been exchanged for `t1`; presenting it again ends the
family with `t1` in it. -/
theorem reuse_ends_family_exchanged : ∃ (db db' : AuthTables) (family_id : ℕ),
    (db.refresh_tokens.map fun row => (row.token_hash, row.is_valid))
      = [("t0", false), ("t1", true)] ∧
    db.family_of plain_auth "t0" = some family_id ∧
    refresh_access_token plain_auth db (some "t0") none "t2" 3 = (.error .token_reused, db') ∧
    db'.FamilyEnded plain_auth family_id := by
  have hrun : (run (restrict
      (logged (AuthTables.step plain_auth) (AuthTables.events plain_auth))
      fun s req => s.1.draws_fresh plain_auth req) (one_key.db, [])
      [.login "key" "t0" 7 1, .refresh (some "t0") none "t1" 2]).map
        (fun s => (s.1.refresh_tokens.map fun row => (row.token_hash, row.is_valid), s.2))
      = some ([("t0", false), ("t1", true)], [.exchanged "t0"]) := by decide +kernel
  obtain ⟨⟨db, log⟩, hs, hrows⟩ := Option.map_eq_some_iff.mp hrun
  obtain ⟨hrows, hlog⟩ := Prod.mk.inj hrows
  change log = _ at hlog
  have hends := (reuse_ends_family plain_auth one_key.db db log (reaches_of_run hs)).2
    (some "t0") none "t2" 3 "t0" (by decide) (.inl (by rw [hlog]; exact List.mem_cons_self))
  obtain ⟨family_id, db', hfamily, heq, hended, -⟩ := hends
  exact ⟨db, db', family_id, hrows, hfamily, heq, hended⟩

end Reuse

/-! ## Logout -/

/-- A family is a chain: its hashes are its own, each of a token that can be
presented, and no two of its tokens are valid. -/
structure ChainInv (env : AuthEnv) (tokens : List RefreshToken) : Prop where
  hashes : (tokens.map RefreshToken.token_hash).Nodup
  one_valid : ∀ row ∈ tokens, ∀ row' ∈ tokens, row.family_id = row'.family_id →
    row.is_valid = true → row'.is_valid = true → row.token_hash = row'.token_hash
  drawn : ∀ row ∈ tokens, ∃ raw, raw ≠ "" ∧ env.sha256 raw = row.token_hash

section Logout

variable {env : AuthEnv} {db : AuthTables} {tokens : List RefreshToken} {row : RefreshToken}

theorem ChainInv.nil (env : AuthEnv) : ChainInv env [] where
  hashes := List.nodup_nil
  one_valid := List.forall_mem_nil _
  drawn := List.forall_mem_nil _

theorem ChainInv.clear (h : ChainInv env tokens) (p : RefreshToken → Prop) [DecidablePred p] :
    ChainInv env (clear p tokens) where
  hashes := by
    rw [map_clear RefreshToken.token_hash fun _ => rfl]
    exact h.hashes
  one_valid := by
    intro row hrow row' hrow' hfamily hvalid hvalid'
    obtain ⟨_, hmem, -, -, hkept⟩ := exists_of_mem_clear hrow
    obtain ⟨_, hmem', -, -, hkept'⟩ := exists_of_mem_clear hrow'
    obtain ⟨rfl, -⟩ := hkept hvalid
    obtain ⟨rfl, -⟩ := hkept' hvalid'
    exact h.one_valid _ hmem _ hmem' hfamily hvalid hvalid'
  drawn := by
    intro row hrow
    obtain ⟨row₀, hmem, hhash, -, -⟩ := exists_of_mem_clear hrow
    rw [← hhash]
    exact h.drawn row₀ hmem

/-- A token is added to a family in which no other is valid. -/
theorem ChainInv.append (h : ChainInv env tokens)
    (hhash : row.token_hash ∉ tokens.map RefreshToken.token_hash)
    (hinvalid : ∀ row' ∈ tokens, row'.family_id = row.family_id → row'.is_valid = false)
    (hdrawn : ∃ raw, raw ≠ "" ∧ env.sha256 raw = row.token_hash) :
    ChainInv env (tokens ++ [row]) where
  hashes := by
    rw [List.map_append, List.map_singleton, ← List.concat_eq_append]
    exact h.hashes.concat hhash
  one_valid := by
    intro row₁ hrow₁ row₂ hrow₂ hfamily hvalid₁ hvalid₂
    rcases List.mem_append.mp hrow₁ with hmem₁ | hmem₁ <;>
      rcases List.mem_append.mp hrow₂ with hmem₂ | hmem₂
    · exact h.one_valid _ hmem₁ _ hmem₂ hfamily hvalid₁ hvalid₂
    · rw [List.mem_singleton.mp hmem₂] at hfamily
      rw [hinvalid row₁ hmem₁ hfamily] at hvalid₁
      cases hvalid₁
    · rw [List.mem_singleton.mp hmem₁] at hfamily
      rw [hinvalid row₂ hmem₂ hfamily.symm] at hvalid₂
      cases hvalid₂
    · rw [List.mem_singleton.mp hmem₁, List.mem_singleton.mp hmem₂]
  drawn := by
    intro row' hrow'
    rcases List.mem_append.mp hrow' with hmem | hmem
    · exact h.drawn row' hmem
    · rw [List.mem_singleton.mp hmem]
      exact hdrawn

/-- Without its valid token a family is dead. -/
theorem ChainInv.dead_invalidate (h : ChainInv env tokens) (hrow : row ∈ tokens)
    (hvalid : row.is_valid = true) :
    DeadFamily (invalidate tokens [row.token_hash]) row.family_id where
  opened := by
    rw [invalidate_eq_clear, map_clear RefreshToken.family_id fun _ => rfl]
    exact List.mem_map_of_mem hrow
  invalid := by
    intro row' hrow' hfamily
    obtain ⟨_, hmem, -, -, hkept⟩ := exists_of_mem_invalidate hrow'
    by_contra hne
    rw [Bool.not_eq_false] at hne
    obtain ⟨rfl, hnot⟩ := hkept hne
    apply hnot
    rw [h.one_valid _ hmem row hrow hfamily hne hvalid]
    exact List.mem_singleton_self _

theorem ChainInv.serve (h : ChainInv env db.refresh_tokens) {req : AuthRequest}
    (hfresh : db.draws_fresh env req = true) :
    ChainInv env (db.serve env req).refresh_tokens := by
  have heffect := @AuthTables.serve_effect env db req
  generalize (db.serve env req).refresh_tokens = tokens' at heffect ⊢
  cases heffect with
  | cleared _ p => exact h.clear p
  | opened api_key raw family_id now api_key_id =>
      obtain ⟨hraw, hhash, hfamily⟩ := of_decide_eq_true hfresh
      refine h.append hhash ?_ ⟨raw, hraw, rfl⟩
      -- the family is new, so it has no other token
      intro row' hrow' heq
      rw [show family_id = row'.family_id from heq.symm] at hfamily
      exact absurd (List.mem_map_of_mem hrow') hfamily
  | rotated cookie body raw now token db_rt hpresented hselect hvalid =>
      obtain ⟨hraw, hhash⟩ := of_decide_eq_true hfresh
      -- the one valid token of the family goes before the next one comes
      refine (h.clear _).append ?_ (h.dead_invalidate (mem_of_select hselect).1 hvalid).invalid
        ⟨raw, hraw, rfl⟩
      rw [map_clear RefreshToken.token_hash fun _ => rfl]
      exact hhash

theorem ChainInv.reaches {db₀ : AuthTables} (h₀ : db₀.refresh_tokens = [])
    (hrun : db₀.Serves env db) : ChainInv env db.refresh_tokens := by
  refine hrun.invariant (fun u => ChainInv env u.refresh_tokens) ?_ ?_
  · rw [h₀]
    exact ChainInv.nil env
  · intro u req v hu hfresh hs
    cases hs
    exact hu.serve hfresh

/-- With unique hashes a row is found by its hash. -/
theorem ChainInv.select (h : ChainInv env tokens) (hrow : row ∈ tokens) :
    select_refresh_token tokens row.token_hash = some row := by
  have hsome : (select_refresh_token tokens row.token_hash).isSome :=
    List.find?_isSome.mpr ⟨row, hrow, decide_eq_true rfl⟩
  obtain ⟨row', hrow'⟩ := Option.isSome_iff_exists.mp hsome
  obtain ⟨hmem, hhash⟩ := mem_of_select hrow'
  rw [hrow', List.inj_on_of_nodup_map h.hashes hmem hrow hhash]

/-- What a logout with a stored token leaves. -/
theorem logout_of_select {cookie : Option String} {token : String}
    (hcookie : truthy cookie = some token)
    (hrow : select_refresh_token db.refresh_tokens (env.sha256 token) = some row) :
    logout env db cookie = { db with refresh_tokens := log_out db.refresh_tokens row } := by
  have hcheck : check_logout env db.refresh_tokens cookie = some row := by
    unfold check_logout
    rw [hcookie]
    exact hrow
  unfold logout
  rw [hcheck]

/-- A valid token of a family is exchanged at any time up to its expiry. It is the only
row with its hash, so the lookup finds it; and a hash that is not in the table is what the
insert of the next token needs. -/
theorem ChainInv.refresh_ok (h : ChainInv env db.refresh_tokens) (hrow : row ∈ db.refresh_tokens)
    (hvalid : row.is_valid = true) {raw : String}
    (hfresh : env.sha256 raw ∉ db.refresh_tokens.map RefreshToken.token_hash) :
    ∃ token response, presented (some token) none = some token ∧
      db.family_of env token = some row.family_id ∧
      (refresh_access_token env db (some token) none raw row.expires_at).1 = .ok response := by
  obtain ⟨token, hne, hhash⟩ := h.drawn row hrow
  have hselect : select_refresh_token db.refresh_tokens (env.sha256 token) = some row := by
    rw [hhash]
    exact h.select hrow
  have hpresented : presented (some token) none = some token := by
    simp [presented, truthy, hne]
  have hfamily : db.family_of env token = some row.family_id := by
    unfold AuthTables.family_of
    rw [hselect, Option.map_some]
  suffices hok : ∃ response,
      (refresh_access_token env db (some token) none raw row.expires_at).1 = .ok response by
    obtain ⟨response, hok⟩ := hok
    exact ⟨token, response, hpresented, hfamily, hok⟩
  have hout := refresh_outcome env db (some token) none raw row.expires_at
  generalize refresh_access_token env db (some token) none raw row.expires_at = out at hout ⊢
  cases hout with
  | refused err hlive herr =>
      -- a valid row is refused only when it has expired, or when the new token is not new
      obtain ⟨-, hexpired | hstored⟩ := hlive token row hpresented hselect
      · omega
      · exact absurd hstored hfresh
  | reused token' db_rt hpresented' hselect' hvalid' =>
      rw [hpresented] at hpresented'
      cases hpresented'
      rw [hselect] at hselect'
      cases hselect'
      rw [hvalid] at hvalid'
      cases hvalid'
  | rotated token' db_rt hpresented' hselect' hvalid' hnow hfresh' => exact ⟨_, rfl⟩

/-- **When a logout ends its session**: after any history, a logout with a stored token
ends the family of the token if the token is valid, or if no token of the family is. It
does so in no other case, as long as a token can be drawn that is not stored. Logging out
clears one flag. In a family at most one token is valid ([`ChainInv`]): if the one that is
presented is it, the family is dead after it; if it is another, the valid one remains and
can be exchanged ([`ChainInv.refresh_ok`]), so the session goes on. -/
theorem logout_ends_family_iff (env : AuthEnv) (db₀ db : AuthTables)
    (h₀ : db₀.refresh_tokens = []) (hrun : db₀.Serves env db) (cookie : Option String)
    (token : String) (row : RefreshToken) (hcookie : truthy cookie = some token)
    (hrow : select_refresh_token db.refresh_tokens (env.sha256 token) = some row) :
    ((row.is_valid = true ∨
        ∀ row' ∈ db.refresh_tokens, row'.family_id = row.family_id → row'.is_valid = false) →
      (logout env db cookie).RejectsFamily env row.family_id) ∧
    ((∃ raw, env.sha256 raw ∉ db.refresh_tokens.map RefreshToken.token_hash) →
      (logout env db cookie).RejectsFamily env row.family_id →
      row.is_valid = true ∨
        ∀ row' ∈ db.refresh_tokens, row'.family_id = row.family_id → row'.is_valid = false) := by
  have hchain := ChainInv.reaches h₀ hrun
  have hmem := (mem_of_select hrow).1
  rw [logout_of_select hcookie hrow]
  unfold log_out
  constructor
  · intro hcond
    refine (DeadFamily.familyEnded ?_).rejected
    -- the token was the only valid one, or there was none
    by_cases hvalid : row.is_valid = true
    · dsimp only
      rw [if_pos hvalid]
      exact hchain.dead_invalidate hmem hvalid
    · dsimp only
      rw [if_neg hvalid]
      exact ⟨List.mem_map_of_mem hmem, hcond.resolve_left hvalid⟩
  · rintro ⟨raw, hfresh⟩ hrejects
    by_contra hcond
    rw [not_or] at hcond
    obtain ⟨hvalid, hlive⟩ := hcond
    -- a valid token is left, and nothing has been written
    have hexists : ∃ row' ∈ db.refresh_tokens, row'.family_id = row.family_id ∧
        row'.is_valid = true := by
      by_contra hnone
      apply hlive
      intro row' hrow' hfamily
      by_contra hne
      exact hnone ⟨row', hrow', hfamily, by simpa using hne⟩
    obtain ⟨row', hrow', hfamily, hvalid'⟩ := hexists
    rw [if_neg hvalid] at hrejects
    obtain ⟨token', response, hpresented, hfamily', hok⟩ := hchain.refresh_ok hrow' hvalid' hfresh
    rw [hfamily] at hfamily'
    exact hrejects db .refl _ _ _ _ _ _ hpresented hfamily' hok

/-- One login, and a logout with the token it has returned. -/
theorem logout_ends_family_current : ∃ (db : AuthTables) (row : RefreshToken),
    db.refresh_tokens.map (fun row => (row.token_hash, row.is_valid)) = [("t0", true)] ∧
    select_refresh_token db.refresh_tokens "t0" = some row ∧
    (logout plain_auth db (some "t0")).RejectsFamily plain_auth row.family_id := by
  have hrun : (run (restrict (AuthTables.step plain_auth) (AuthTables.draws_fresh plain_auth))
      one_key.db [.login "key" "t0" 7 1]).map
        (fun db => (db.refresh_tokens.map (fun row => (row.token_hash, row.is_valid)),
          select_refresh_token db.refresh_tokens "t0"))
      = some ([("t0", true)], some (new_refresh_token plain_auth "t0" 7 0 1)) := by
    decide +kernel
  obtain ⟨db, hs, hrows⟩ := Option.map_eq_some_iff.mp hrun
  obtain ⟨hrows, hselect⟩ := Prod.mk.inj hrows
  refine ⟨db, _, hrows, hselect, ?_⟩
  exact (logout_ends_family_iff plain_auth one_key.db db rfl (reaches_of_run hs) (some "t0") "t0"
    _ (by decide) hselect).1 (.inl rfl)

/-- The token `t0` has been exchanged for `t1`, by whoever held it. A logout
with `t0` leaves `t1` valid, and a refresh with `t1` succeeds. -/
theorem not_logout_ends_family : ¬ ∀ (env : AuthEnv) (db₀ db : AuthTables),
    db₀.refresh_tokens = [] → db₀.Serves env db → ∀ cookie token row,
    truthy cookie = some token →
    select_refresh_token db.refresh_tokens (env.sha256 token) = some row →
    (logout env db cookie).RejectsFamily env row.family_id := by
  intro h
  have hrun : (run (restrict (AuthTables.step plain_auth) (AuthTables.draws_fresh plain_auth))
      one_key.db [.login "key" "t0" 7 1, .refresh (some "t0") none "t1" 2]).map
        (fun db => (select_refresh_token db.refresh_tokens "t0",
          (logout plain_auth db (some "t0")).family_of plain_auth "t1",
          (refresh_access_token plain_auth (logout plain_auth db (some "t0"))
            (some "t1") none "t2" 3).1))
      = some (some { new_refresh_token plain_auth "t0" 7 0 1 with is_valid := false }, some 7,
          .ok (token_response plain_auth "t2" 0 3)) := by
    decide +kernel
  obtain ⟨db, hs, hout⟩ := Option.map_eq_some_iff.mp hrun
  obtain ⟨hselect, hout⟩ := Prod.mk.inj hout
  obtain ⟨hfamily, hok⟩ := Prod.mk.inj hout
  exact h plain_auth one_key.db db rfl (reaches_of_run hs) (some "t0") "t0" _ (by decide) hselect
    _ .refl (some "t1") none "t2" 3 "t1" _ (by decide) hfamily hok

end Logout

/-! ## Revoked keys -/

namespace AuthTables

variable (env : AuthEnv)

/-- The key of the token that a login or a refresh stores when it answers with
tokens. -/
def issued_to (db : AuthTables) (req : AuthRequest) : Option ℕ :=
  match db.answer env req with
  | some (.ok _) => (db.serve env req).refresh_tokens.getLast?.map RefreshToken.api_key_id
  | _ => none

/-- The key with this id is active. -/
def ActiveKey (db : AuthTables) (id : ℕ) : Prop :=
  ∃ key ∈ db.api_keys, key.id = id ∧ key.is_active = true

instance (db : AuthTables) (id : ℕ) : Decidable (db.ActiveKey id) :=
  inferInstanceAs (Decidable (∃ key ∈ db.api_keys, key.id = id ∧ key.is_active = true))

/-- If a request answers with tokens, the access token and the refresh token
are for one key, and it is active. -/
def IssuesToActive (db : AuthTables) (req : AuthRequest) : Prop :=
  ∀ response, db.answer env req = some (.ok response) → ∃ id raw now,
    db.issued_to env req = some id ∧ response = token_response env raw id now ∧ db.ActiveKey id

/-- The row that a refresh presents, if it is valid and has not expired, is of
an active key. A rotation whose new token is refused by the unique constraint
issues nothing. -/
def presents_active (db : AuthTables) : AuthRequest → Bool
  | .refresh cookie body raw now =>
    decide (∀ db_rt ∈ (presented cookie body).bind fun token =>
        select_refresh_token db.refresh_tokens (env.sha256 token),
      db_rt.is_valid = true → now ≤ db_rt.expires_at →
      env.sha256 raw ∉ db.refresh_tokens.map RefreshToken.token_hash →
      db.ActiveKey db_rt.api_key_id)
  | _ => true

/-- The tables after a list of requests. -/
def serve_all (db : AuthTables) (reqs : List AuthRequest) : AuthTables :=
  reqs.foldl (serve env) db

end AuthTables

section Keys

variable {env : AuthEnv} {db : AuthTables}

/-- A login finds an active key, or it issues nothing. -/
theorem login_issuesToActive (api_key raw : String) (family_id now : ℕ) :
    db.IssuesToActive env (.login api_key raw family_id now) := by
  intro response h
  unfold AuthTables.issued_to
  rw [h]
  change some (login_for_access_token env db api_key raw family_id now).1 = _ at h
  show ∃ id raw' now', Option.map RefreshToken.api_key_id
    (login_for_access_token env db api_key raw family_id now).2.refresh_tokens.getLast?
      = some id ∧ _
  unfold login_for_access_token at h ⊢
  split at h
  · cases h
  rename_i db_key hauth
  dsimp only at h ⊢
  split at h
  · cases h
  rename_i tokens hins
  -- the new row is the last one
  obtain ⟨-, rfl⟩ := insert_refresh_token_ok hins
  cases h
  refine ⟨db_key.id, raw, now, ?_, rfl, ?_⟩
  · rw [List.getLast?_concat]
    rfl
  · -- `get_by_raw_key` selects on `is_active`
    unfold authenticate_api_key get_by_raw_key at hauth
    split at hauth
    · cases hauth
    split at hauth
    · cases hauth
    rename_i hfind
    cases hauth
    have hactive := List.find?_some hfind
    rw [decide_eq_true_eq] at hactive
    exact ⟨db_key, List.mem_of_find?_eq_some hfind, rfl, hactive.2⟩

/-- A refresh issues tokens to an active key if and only if the key of the token it is
given is active. The endpoint reads the token row and never the key, so whether the key is
active is a matter of the state it is called in. -/
theorem refresh_issuesToActive_iff (cookie : Option String) (body : Option (Option String))
    (raw : String) (now : ℕ) :
    db.IssuesToActive env (.refresh cookie body raw now) ↔
      db.presents_active env (.refresh cookie body raw now) = true := by
  unfold AuthTables.IssuesToActive AuthTables.issued_to AuthTables.presents_active
  simp only [AuthTables.answer, AuthTables.serve, decide_eq_true_eq]
  have hout := refresh_outcome env db cookie body raw now
  generalize refresh_access_token env db cookie body raw now = out at hout ⊢
  cases hout with
  | refused err hlive herr =>
      constructor
      · intro _ db_rt hmem hvalid hnow hfresh
        obtain ⟨token, hpresented, hselect⟩ := Option.bind_eq_some_iff.mp hmem
        obtain ⟨-, hexpired | hstored⟩ := hlive token db_rt hpresented hselect
        · omega
        · exact absurd hstored hfresh
      · intro _ response h
        cases h
  | reused token db_rt hpresented hselect hvalid =>
      constructor
      · intro _ db_rt' hmem hvalid'
        rw [hpresented, Option.bind_some, hselect] at hmem
        cases hmem
        rw [hvalid] at hvalid'
        cases hvalid'
      · intro _ response h
        cases h
  | rotated token db_rt hpresented hselect hvalid hnow hfresh =>
      -- tokens are issued here, to the key of the row and without a look at it
      rw [hpresented, Option.bind_some, hselect]
      dsimp only
      rw [List.getLast?_concat]
      constructor
      · intro h db_rt' hmem _ _ _
        cases hmem
        obtain ⟨id, raw', now', hid, -, hactive⟩ := h _ rfl
        cases hid
        exact hactive
      · intro h response hok
        cases hok
        exact ⟨db_rt.api_key_id, raw, now, rfl, rfl, h db_rt rfl hvalid hnow hfresh⟩

theorem issuesToActive_iff (req : AuthRequest) :
    db.IssuesToActive env req ↔ db.presents_active env req = true := by
  cases req with
  | login api_key raw family_id now =>
      exact ⟨fun _ => rfl, fun _ => login_issuesToActive api_key raw family_id now⟩
  | refresh cookie body raw now => exact refresh_issuesToActive_iff cookie body raw now
  | logout cookie =>
      refine ⟨fun _ => rfl, fun _ response h => ?_⟩
      cases h
  | deactivate api_key_id =>
      refine ⟨fun _ => rfl, fun _ response h => ?_⟩
      cases h

/-- A key that is active after a request was active before, and has not just been
deactivated. No request sets the flag of a key, so keys are only ever deactivated. -/
theorem activeKey_of_serve {req : AuthRequest} {id : ℕ} (h : (db.serve env req).ActiveKey id) :
    db.ActiveKey id ∧ ∀ id', req = .deactivate id' → id' ≠ id := by
  cases req with
  | login api_key raw family_id now =>
      refine ⟨?_, fun _ heq => by cases heq⟩
      change (login_for_access_token env db api_key raw family_id now).2.ActiveKey id at h
      -- a login only writes `last_used_at`
      have htouch : ∀ key_id, AuthTables.ActiveKey
          { db with api_keys := touch_api_key db.api_keys key_id now } id → db.ActiveKey id := by
        rintro key_id ⟨key, hkey, hid, hactive⟩
        obtain ⟨key₀, hkey₀, rfl⟩ := List.mem_map.mp hkey
        refine ⟨key₀, hkey₀, ?_⟩
        split at hid <;> simp_all
      unfold login_for_access_token at h
      split at h
      · exact h
      · dsimp only at h
        split at h
        · exact htouch _ h
        · exact htouch _ h
  | refresh cookie body raw now =>
      refine ⟨?_, fun _ heq => by cases heq⟩
      change (refresh_access_token env db cookie body raw now).2.ActiveKey id at h
      have hout := refresh_outcome env db cookie body raw now
      generalize refresh_access_token env db cookie body raw now = out at hout h
      cases hout with
      | refused err hlive herr => exact h
      | reused token db_rt hpresented hselect hvalid => exact h
      | rotated token db_rt hpresented hselect hvalid hnow hfresh => exact h
  | logout cookie =>
      refine ⟨?_, fun _ heq => by cases heq⟩
      change (logout env db cookie).ActiveKey id at h
      unfold logout at h
      split at h <;> exact h
  | deactivate api_key_id =>
      obtain ⟨key, hkey, hid, hactive⟩ := h
      obtain ⟨key₀, hkey₀, rfl⟩ := List.mem_map.mp hkey
      by_cases heq : key₀.id = api_key_id
      · rw [if_pos heq] at hactive
        cases hactive
      · rw [if_neg heq] at hid hactive
        refine ⟨⟨key₀, hkey₀, hid, hactive⟩, ?_⟩
        intro id' hreq hid'
        cases hreq
        exact heq (hid.trans hid'.symm)

theorem activeKey_of_serve_all {reqs : List AuthRequest} {id : ℕ}
    (h : (db.serve_all env reqs).ActiveKey id) : db.ActiveKey id := by
  induction reqs generalizing db with
  | nil => exact h
  | cons req reqs ih => exact (activeKey_of_serve (ih h)).1

/-- **When no credentials go to a revoked key**: in a list of requests, every token is
issued to a key that is active at that moment, and none to a key after its deactivation,
if and only if no refresh presents a valid token of a key that is not active. The
condition speaks of one request at a time, and so does the first half of the claim. The
second half follows, because a key that was deactivated stays so ([`activeKey_of_serve`]):
a token issued to it later would be issued to a key that is not active. -/
theorem issued_to_active_iff (env : AuthEnv) (db₀ : AuthTables) (reqs : List AuthRequest) :
    ((∀ past req future, reqs = past ++ req :: future →
        (db₀.serve_all env past).IssuesToActive env req) ∧
      ∀ past id between req future, reqs = past ++ .deactivate id :: between ++ req :: future →
        (db₀.serve_all env (past ++ .deactivate id :: between)).issued_to env req ≠ some id) ↔
    ∀ past req future, reqs = past ++ req :: future →
      (db₀.serve_all env past).presents_active env req = true := by
  constructor
  · intro h past req future hreqs
    exact (issuesToActive_iff req).mp (h.1 past req future hreqs)
  · intro h
    have hissues : ∀ past req future, reqs = past ++ req :: future →
        (db₀.serve_all env past).IssuesToActive env req :=
      fun past req future hreqs => (issuesToActive_iff req).mpr (h past req future hreqs)
    refine ⟨hissues, ?_⟩
    intro past id between req future hreqs hissued
    have hactive : (db₀.serve_all env (past ++ .deactivate id :: between)).ActiveKey id := by
      -- whatever issues a token answers with it
      cases hanswer : (db₀.serve_all env (past ++ .deactivate id :: between)).answer env req with
      | none =>
          unfold AuthTables.issued_to at hissued
          rw [hanswer] at hissued
          cases hissued
      | some answer =>
          cases answer with
          | error err =>
              unfold AuthTables.issued_to at hissued
              rw [hanswer] at hissued
              cases hissued
          | ok response =>
              obtain ⟨id', _, _, hid', -, hactive⟩ := hissues _ req future hreqs response hanswer
              rw [hissued, Option.some.injEq] at hid'
              rwa [← hid'] at hactive
    -- but it has been deactivated, and nothing activates a key
    unfold AuthTables.serve_all at hactive
    rw [List.foldl_append, List.foldl_cons] at hactive
    exact (activeKey_of_serve (activeKey_of_serve_all hactive)).2 id rfl rfl

/-- A key is deactivated after a login, and a refresh issues it another pair of
tokens. -/
theorem not_issued_to_active : ¬ ∀ (env : AuthEnv) (db₀ : AuthTables) (reqs : List AuthRequest),
    (∀ past req future, reqs = past ++ req :: future →
      (db₀.serve_all env past).IssuesToActive env req) ∧
    ∀ past id between req future, reqs = past ++ .deactivate id :: between ++ req :: future →
      (db₀.serve_all env (past ++ .deactivate id :: between)).issued_to env req ≠ some id := by
  intro h
  refine (h plain_auth one_key.db
    [.login "key" "t0" 7 1, .deactivate 0, .refresh (some "t0") none "t1" 2]).2
    [.login "key" "t0" 7 1] 0 [] (.refresh (some "t0") none "t1" 2) [] rfl ?_
  decide +kernel

end Keys

end EventFlow
