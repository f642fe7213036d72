/-
Login, refresh and logout with any number of requests in flight, every `SELECT`
and every `COMMIT` a step of its own.

A refresh reads the row of the token it is given, and everything it decides
afterwards it decides on what it has read. It takes no lock, and its write is an
`UPDATE` by primary key that does not look at `is_valid` again. The one
statement that runs before its commit is the revocation of a family: the rows
it finds are those of its snapshot, and a token that is inserted meanwhile is
not among them. A write that has to wait for the row of another transaction is
the same write at a later step, so the steps need no locks.

Two refreshes that have both read one token valid both rotate it, and the family
goes on with two valid tokens ([`not_one_live`]). It takes no more than that and
no less: a run keeps to one valid token per family and to one exchange per token
if and only if each rotation commits while its token is still the latest of the
family ([`one_live_iff`]).
-/
import EventFlow.Auth
import EventFlow.Library.Transition
import Mathlib.Data.List.Induction

set_option autoImplicit false

namespace EventFlow

open Transition

/-! ## Requests -/

/-- How far a request has come. -/
inductive AuthCall where
  /-- Not made yet. -/
  | idle
  /-- `get_by_raw_key` has found the key. -/
  | authenticating (db_key : APIKey)
  /-- `authenticate_api_key` has returned. -/
  | authenticated (api_key_id : ℕ)
  /-- A refresh has read an invalid row. -/
  | reused (db_rt : RefreshToken)
  /-- The revocation has found these rows. -/
  | revoking (token_hashes : List String)
  /-- A refresh has read a valid row that has not expired. -/
  | rotating (db_rt : RefreshToken)
  /-- A logout has read a row. -/
  | leaving (db_rt : RefreshToken)
  /-- A login has answered. -/
  | logged_in (response : TokenResponse)
  /-- A refresh has answered; `token_hash` is of the token it was given. -/
  | refreshed (token_hash : String) (response : TokenResponse)
  /-- A logout has answered. -/
  | logged_out
  /-- The request has failed, and its transaction is rolled back. -/
  | raised (error : AuthError)

/-- The hash of the token that a request has exchanged for a new one. -/
def AuthCall.exchanged : AuthCall → Option String
  | .refreshed token_hash _ => some token_hash
  | _ => none

/-- Where a refresh goes after its `SELECT`. -/
def AuthCall.of_check : Except AuthError RefreshCheck → AuthCall
  | .error err => .raised err
  | .ok (.reused db_rt) => .reused db_rt
  | .ok (.rotate db_rt) => .rotating db_rt

/-- What a login or a refresh has answered. -/
def AuthCall.answer : AuthCall → Option (Except AuthError TokenResponse)
  | .logged_in response => some (.ok response)
  | .refreshed _ response => some (.ok response)
  | .raised error => some (.error error)
  | _ => none

/-- The committed tables and the requests. -/
structure AuthStore where
  db : AuthTables
  calls : ℕ → AuthCall

/-- The reads and the commits of request `r`. `now` is what `datetime.now`
returns, `raw` what `secrets.token_urlsafe` returns, `family_id` what
`uuid.uuid4` returns. -/
inductive AuthStep where
  /-- The `SELECT` of the API key. -/
  | login_select (r : ℕ) (api_key : String)
  /-- The `COMMIT` of `last_used_at`. -/
  | login_touch (r now : ℕ)
  /-- The `COMMIT` of the first token of a family. -/
  | login_commit (r : ℕ) (raw : String) (family_id now : ℕ)
  /-- The `SELECT` of the token that is presented. -/
  | refresh_select (r : ℕ) (cookie : Option String) (body : Option (Option String)) (now : ℕ)
  /-- The `UPDATE` of the family of a token that is used again. -/
  | revoke (r : ℕ)
  /-- The `COMMIT` of that update. -/
  | revoke_commit (r : ℕ)
  /-- The `COMMIT` of a rotation. -/
  | rotate_commit (r : ℕ) (raw : String) (now : ℕ)
  /-- The `SELECT` of the token of a logout. -/
  | logout_select (r : ℕ) (cookie : Option String)
  /-- The `COMMIT` of a logout. -/
  | logout_commit (r : ℕ)

namespace AuthStore

/-- Request `r` goes to `call`, nothing is written. -/
def goto (s : AuthStore) (r : ℕ) (call : AuthCall) : AuthStore :=
  { s with calls := Function.update s.calls r call }

/-- Request `r` goes to `call` and has written refresh tokens. -/
def wrote (s : AuthStore) (r : ℕ) (call : AuthCall) (tokens : List RefreshToken) : AuthStore where
  db := { s.db with refresh_tokens := tokens }
  calls := Function.update s.calls r call

variable (env : AuthEnv)

/-- One step of one of the requests. -/
def step (s : AuthStore) : AuthStep → Option AuthStore
  | .login_select r api_key =>
    match s.calls r with
    | .idle =>
      match authenticate_api_key env s.db.api_keys api_key with
      | .error err => some (s.goto r (.raised err))
      | .ok db_key => some (s.goto r (.authenticating db_key))
    | _ => none
  | .login_touch r now =>
    match s.calls r with
    | .authenticating db_key =>
      some { s.goto r (.authenticated db_key.id) with
        db := { s.db with api_keys := touch_api_key s.db.api_keys db_key.id now } }
    | _ => none
  | .login_commit r raw family_id now =>
    match s.calls r with
    | .authenticated api_key_id =>
      -- `uuid.uuid4` does not return an id twice
      if family_id ∈ s.db.refresh_tokens.map RefreshToken.family_id then none
      else
        match insert_refresh_token s.db.refresh_tokens
            (new_refresh_token env raw family_id api_key_id now) with
        | .error err => some (s.goto r (.raised err))
        | .ok tokens =>
          some (s.wrote r (.logged_in (token_response env raw api_key_id now)) tokens)
    | _ => none
  | .refresh_select r cookie body now =>
    match s.calls r with
    | .idle => some (s.goto r (.of_check (check_refresh env s.db.refresh_tokens cookie body now)))
    | _ => none
  | .revoke r =>
    match s.calls r with
    | .reused db_rt =>
      some (s.goto r (.revoking (family_hashes s.db.refresh_tokens db_rt.family_id)))
    | _ => none
  | .revoke_commit r =>
    match s.calls r with
    | .revoking token_hashes =>
      some (s.wrote r (.raised .token_reused) (invalidate s.db.refresh_tokens token_hashes))
    | _ => none
  | .rotate_commit r raw now =>
    match s.calls r with
    | .rotating db_rt =>
      match rotate env s.db.refresh_tokens db_rt raw now with
      | .error err => some (s.goto r (.raised err))
      | .ok tokens =>
        some (s.wrote r
          (.refreshed db_rt.token_hash (token_response env raw db_rt.api_key_id now)) tokens)
    | _ => none
  | .logout_select r cookie =>
    match s.calls r with
    | .idle =>
      match check_logout env s.db.refresh_tokens cookie with
      | none => some (s.goto r .logged_out)
      | some db_rt => some (s.goto r (.leaving db_rt))
    | _ => none
  | .logout_commit r =>
    match s.calls r with
    | .leaving db_rt => some (s.wrote r .logged_out (log_out s.db.refresh_tokens db_rt))
    | _ => none

end AuthStore

/-! ## One request alone -/

section Alone

variable {env : AuthEnv} {s : AuthStore} {r : ℕ}

@[simp] theorem AuthStore.goto_db (s : AuthStore) (r : ℕ) (call : AuthCall) :
    (s.goto r call).db = s.db := rfl

@[simp] theorem AuthStore.goto_calls_self (s : AuthStore) (r : ℕ) (call : AuthCall) :
    (s.goto r call).calls r = call := Function.update_self ..

@[simp] theorem AuthStore.wrote_calls_self (s : AuthStore) (r : ℕ) (call : AuthCall)
    (tokens : List RefreshToken) : (s.wrote r call tokens).calls r = call :=
  Function.update_self ..

/-- Only the last place a request goes to counts. -/
@[simp] theorem AuthStore.goto_goto (s : AuthStore) (r : ℕ) (call call' : AuthCall) :
    (s.goto r call).goto r call' = s.goto r call' := by
  unfold AuthStore.goto
  rw [Function.update_idem]

@[simp] theorem AuthStore.wrote_goto (s : AuthStore) (r : ℕ) (call call' : AuthCall)
    (tokens : List RefreshToken) :
    (s.goto r call).wrote r call' tokens = s.wrote r call' tokens := by
  unfold AuthStore.wrote AuthStore.goto
  rw [Function.update_idem]

/-- **A refresh that nobody disturbs is `refresh_access_token`**: it leaves the tables
that the endpoint computes, and it answers what the endpoint returns. The steps to take
are one read and the commits that the function makes: none if the read refuses the token,
the revocation and its commit if the token has been used before, and one commit for a
rotation. Token hashes are a key, so the revocation finds the rows of the family and no
others. -/
theorem AuthStore.refresh_alone (hidle : s.calls r = .idle)
    (hnodup : (s.db.refresh_tokens.map RefreshToken.token_hash).Nodup)
    (cookie : Option String) (body : Option (Option String)) (raw : String) (now : ℕ) :
    ∃ steps s', run (AuthStore.step env) s steps = some s' ∧
      (s'.calls r).answer = some (refresh_access_token env s.db cookie body raw now).1 ∧
      s'.db = (refresh_access_token env s.db cookie body raw now).2 := by
  unfold refresh_access_token
  cases hcheck : check_refresh env s.db.refresh_tokens cookie body now with
  | error err =>
      refine ⟨[.refresh_select r cookie body now], s.goto r (.raised err), ?_, ?_, rfl⟩
      · simp [AuthStore.step, hidle, hcheck, AuthCall.of_check]
      · rw [AuthStore.goto_calls_self]
        rfl
  | ok check =>
      cases check with
      | reused db_rt =>
          refine ⟨[.refresh_select r cookie body now, .revoke r, .revoke_commit r],
            s.wrote r (.raised .token_reused)
              (revoke_family s.db.refresh_tokens db_rt.family_id), ?_, ?_, rfl⟩
          · simp [AuthStore.step, hidle, hcheck, AuthCall.of_check,
              invalidate_family_hashes hnodup]
          · rw [AuthStore.wrote_calls_self]
            rfl
      | rotate db_rt =>
          refine ⟨[.refresh_select r cookie body now, .rotate_commit r raw now], ?_⟩
          dsimp only
          cases hrot : rotate env s.db.refresh_tokens db_rt raw now with
          | error err =>
              refine ⟨s.goto r (.raised err), ?_, ?_, rfl⟩
              · simp [AuthStore.step, hidle, hcheck, AuthCall.of_check, hrot]
              · rw [AuthStore.goto_calls_self]
                rfl
          | ok tokens =>
              refine ⟨s.wrote r (.refreshed db_rt.token_hash
                (token_response env raw db_rt.api_key_id now)) tokens, ?_, ?_, rfl⟩
              · simp [AuthStore.step, hidle, hcheck, AuthCall.of_check, hrot]
              · rw [AuthStore.wrote_calls_self]
                rfl

/-- A login that nobody disturbs is `login_for_access_token`. The steps are a read and two
commits: one for `last_used_at` and one for the new token. -/
theorem AuthStore.login_alone (hidle : s.calls r = .idle) (api_key raw : String)
    (family_id now : ℕ)
    (hfresh : family_id ∉ s.db.refresh_tokens.map RefreshToken.family_id) :
    ∃ steps s', run (AuthStore.step env) s steps = some s' ∧
      (s'.calls r).answer = some (login_for_access_token env s.db api_key raw family_id now).1 ∧
      s'.db = (login_for_access_token env s.db api_key raw family_id now).2 := by
  unfold login_for_access_token
  cases hauth : authenticate_api_key env s.db.api_keys api_key with
  | error err =>
      refine ⟨[.login_select r api_key], s.goto r (.raised err), ?_, ?_, rfl⟩
      · simp [AuthStore.step, hidle, hauth]
      · rw [AuthStore.goto_calls_self]
        rfl
  | ok db_key =>
      -- the commit of `last_used_at` comes first and stays when the insert fails
      let db : AuthTables :=
        { s.db with api_keys := touch_api_key s.db.api_keys db_key.id now }
      let u : AuthStore := { s.goto r (.authenticated db_key.id) with db := db }
      have htouch : run (AuthStore.step env) s [.login_select r api_key, .login_touch r now]
          = some u := by
        simp only [run_cons, run_nil, AuthStore.step, hidle, hauth, Option.bind_some,
          AuthStore.goto_calls_self, AuthStore.goto_goto, AuthStore.goto_db]
        rfl
      have hcall : u.calls r = .authenticated db_key.id := Function.update_self ..
      refine ⟨[.login_select r api_key, .login_touch r now] ++
        [.login_commit r raw family_id now], ?_⟩
      rw [run_append, htouch]
      simp only [Option.bind_some, run_cons, run_nil, AuthStore.step, hcall]
      rw [if_neg (show family_id ∉ u.db.refresh_tokens.map RefreshToken.family_id from hfresh)]
      cases hins : insert_refresh_token s.db.refresh_tokens
          (new_refresh_token env raw family_id db_key.id now) with
      | error err =>
          refine ⟨u.goto r (.raised err), rfl, ?_, rfl⟩
          rw [AuthStore.goto_calls_self]
          rfl
      | ok tokens =>
          refine ⟨u.wrote r (.logged_in (token_response env raw db_key.id now)) tokens, rfl, ?_,
            rfl⟩
          rw [AuthStore.wrote_calls_self]
          rfl

/-- A logout that nobody disturbs is `logout`. -/
theorem AuthStore.logout_alone (hidle : s.calls r = .idle) (cookie : Option String) :
    ∃ steps s', run (AuthStore.step env) s steps = some s' ∧ s'.calls r = .logged_out ∧
      s'.db = logout env s.db cookie := by
  unfold logout
  cases hcheck : check_logout env s.db.refresh_tokens cookie with
  | none =>
      refine ⟨[.logout_select r cookie], s.goto r .logged_out, ?_, ?_, rfl⟩
      · simp [AuthStore.step, hidle, hcheck]
      · rw [AuthStore.goto_calls_self]
  | some db_rt =>
      refine ⟨[.logout_select r cookie, .logout_commit r],
        s.wrote r .logged_out (log_out s.db.refresh_tokens db_rt), ?_, ?_, rfl⟩
      · simp [AuthStore.step, hidle, hcheck]
      · rw [AuthStore.wrote_calls_self]

end Alone

/-! ## What a step does -/

/-- A rotation commits while the token it was given is the latest of its family.
A rotation whose new token is refused by the unique constraint writes nothing. -/
def AuthStore.keeps_latest (env : AuthEnv) (s : AuthStore) : AuthStep → Bool
  | .rotate_commit r raw _ =>
    match s.calls r with
    | .rotating db_rt =>
      decide (env.sha256 raw ∈ s.db.refresh_tokens.map RefreshToken.token_hash ∨
        latest s.db.refresh_tokens db_rt.family_id = some db_rt.token_hash)
    | _ => true
  | _ => true

/-- What a step does to the refresh tokens and to the request that takes it. -/
inductive AuthEffect (env : AuthEnv) (s : AuthStore) (a : AuthStep) : AuthStore → Prop
  /-- Some tokens are invalidated, possibly none. -/
  | cleared (r : ℕ) (call : AuthCall) (api_keys : List APIKey) (token_hashes : List String)
      (hkeep : s.keeps_latest env a = true) (hold : (s.calls r).exchanged = none)
      (hnew : call.exchanged = none)
      (hread : ∀ db_rt, call = .rotating db_rt → db_rt ∈ s.db.refresh_tokens) :
      AuthEffect env s a
        { db := ⟨api_keys, invalidate s.db.refresh_tokens token_hashes⟩
          calls := Function.update s.calls r call }
  /-- A login opens a family. -/
  | opened (r : ℕ) (raw : String) (family_id api_key_id now : ℕ)
      (hkeep : s.keeps_latest env a = true) (hold : (s.calls r).exchanged = none)
      (hhash : env.sha256 raw ∉ s.db.refresh_tokens.map RefreshToken.token_hash)
      (hfamily : family_id ∉ s.db.refresh_tokens.map RefreshToken.family_id) :
      AuthEffect env s a
        (s.wrote r (.logged_in (token_response env raw api_key_id now))
          (s.db.refresh_tokens ++ [new_refresh_token env raw family_id api_key_id now]))
  /-- A refresh exchanges a token for the next one of the family. -/
  | rotated (r : ℕ) (db_rt : RefreshToken) (raw : String) (now : ℕ)
      (hkeep : s.keeps_latest env a = true ↔
        latest s.db.refresh_tokens db_rt.family_id = some db_rt.token_hash)
      (hold : s.calls r = .rotating db_rt)
      (hhash : env.sha256 raw ∉ s.db.refresh_tokens.map RefreshToken.token_hash) :
      AuthEffect env s a
        (s.wrote r (.refreshed db_rt.token_hash (token_response env raw db_rt.api_key_id now))
          (invalidate s.db.refresh_tokens [db_rt.token_hash] ++
            [new_refresh_token env raw db_rt.family_id db_rt.api_key_id now]))

section Effects

variable {env : AuthEnv} {s s' : AuthStore} {a : AuthStep} {r : ℕ}

/-- A step that only moves its request. -/
theorem AuthEffect.moved {call : AuthCall} (hkeep : s.keeps_latest env a = true)
    (hold : (s.calls r).exchanged = none) (hnew : call.exchanged = none)
    (hread : ∀ db_rt, call = .rotating db_rt → db_rt ∈ s.db.refresh_tokens) :
    AuthEffect env s a (s.goto r call) := by
  have h := AuthEffect.cleared r call s.db.api_keys [] hkeep hold hnew hread
  rwa [invalidate_nil] at h

/-- A refresh that goes on to rotate has read a row of the table. -/
theorem mem_of_check_refresh {tokens : List RefreshToken} {cookie : Option String}
    {body : Option (Option String)} {now : ℕ} {db_rt : RefreshToken}
    (h : AuthCall.of_check (check_refresh env tokens cookie body now) = .rotating db_rt) :
    db_rt ∈ tokens := by
  unfold check_refresh at h
  split at h
  · cases h
  split at h
  · cases h
  rename_i row hrow
  split at h
  · cases h
  split at h
  · cases h
  cases h
  exact (mem_of_select hrow).1

theorem AuthCall.exchanged_of_check (check : Except AuthError RefreshCheck) :
    (AuthCall.of_check check).exchanged = none := by
  rcases check with err | db_rt | db_rt <;> rfl

/-- All that the steps can do, in three kinds: rows become invalid, a chain of tokens is
opened, a chain is extended at a token that has been read valid. What a step reads it
keeps in its call, so the kinds can be told apart by the call. -/
theorem AuthStore.step_effect (hs : s.step env a = some s') : AuthEffect env s a s' := by
  cases a with
  | login_select r api_key =>
      simp only [AuthStore.step] at hs
      split at hs
      · rename_i hcall
        split at hs <;> cases hs <;> exact .moved rfl (by rw [hcall]; rfl) rfl nofun
      · cases hs
  | login_touch r now =>
      simp only [AuthStore.step] at hs
      split at hs
      · rename_i db_key hcall
        cases hs
        have h := @AuthEffect.cleared env s (.login_touch r now) r (.authenticated db_key.id)
          (touch_api_key s.db.api_keys db_key.id now) [] rfl (by rw [hcall]; rfl) rfl nofun
        rwa [invalidate_nil] at h
      · cases hs
  | login_commit r raw family_id now =>
      simp only [AuthStore.step] at hs
      split at hs
      · rename_i api_key_id hcall
        split at hs
        · cases hs
        rename_i hfamily
        split at hs
        · cases hs
          exact .moved rfl (by rw [hcall]; rfl) rfl nofun
        · rename_i tokens hins
          cases hs
          obtain ⟨hhash, rfl⟩ := insert_refresh_token_ok hins
          exact .opened r raw family_id api_key_id now rfl (by rw [hcall]; rfl) hhash hfamily
      · cases hs
  | refresh_select r cookie body now =>
      simp only [AuthStore.step] at hs
      split at hs
      · rename_i hcall
        cases hs
        exact .moved rfl (by rw [hcall]; rfl) (AuthCall.exchanged_of_check _)
          fun _ h => mem_of_check_refresh h
      · cases hs
  | revoke r =>
      simp only [AuthStore.step] at hs
      split at hs
      · rename_i db_rt hcall
        cases hs
        exact .moved rfl (by rw [hcall]; rfl) rfl nofun
      · cases hs
  | revoke_commit r =>
      simp only [AuthStore.step] at hs
      split at hs
      · rename_i token_hashes hcall
        cases hs
        exact .cleared r _ _ token_hashes rfl (by rw [hcall]; rfl) rfl nofun
      · cases hs
  | rotate_commit r raw now =>
      simp only [AuthStore.step] at hs
      split at hs
      · rename_i db_rt hcall
        split at hs
        · rename_i err hrot
          cases hs
          refine .moved ?_ (by rw [hcall]; rfl) rfl nofun
          -- the insert has failed on a hash that is stored
          simp only [AuthStore.keeps_latest, hcall]
          refine decide_eq_true (.inl ?_)
          unfold rotate insert_refresh_token at hrot
          split at hrot
          · rename_i hmem
            rwa [map_token_hash_invalidate] at hmem
          · cases hrot
        · rename_i tokens hrot
          cases hs
          obtain ⟨hhash, rfl⟩ := insert_refresh_token_ok hrot
          rw [map_token_hash_invalidate] at hhash
          refine .rotated r db_rt raw now ?_ hcall hhash
          simp only [AuthStore.keeps_latest, hcall, decide_eq_true_eq]
          exact or_iff_right hhash
      · cases hs
  | logout_select r cookie =>
      simp only [AuthStore.step] at hs
      split at hs
      · rename_i hcall
        split at hs <;> cases hs <;> exact .moved rfl (by rw [hcall]; rfl) rfl nofun
      · cases hs
  | logout_commit r =>
      simp only [AuthStore.step] at hs
      split at hs
      · rename_i db_rt hcall
        cases hs
        unfold log_out
        split
        · exact .cleared r _ _ [db_rt.token_hash] rfl (by rw [hcall]; rfl) rfl nofun
        · exact .moved rfl (by rw [hcall]; rfl) rfl nofun
      · cases hs

end Effects

/-! ## One valid token per family -/

/-- No two requests have exchanged one token. -/
def AuthStore.ExchangedOnce (s : AuthStore) : Prop :=
  ∀ r r' token_hash, (s.calls r).exchanged = some token_hash →
    (s.calls r').exchanged = some token_hash → r = r'

/-- Each family has at most one valid token, and no two requests have been given
a new token for one token. -/
structure AuthStore.OneLive (s : AuthStore) : Prop where
  family : ∀ family_id, (s.db.refresh_tokens.filter fun row =>
    decide (row.family_id = family_id ∧ row.is_valid = true)).length ≤ 1
  once : s.ExchangedOnce

/-- No request has been made and no token has been issued. -/
structure AuthStore.Initial (s : AuthStore) : Prop where
  no_tokens : s.db.refresh_tokens = []
  idle : ∀ r, s.calls r = .idle

/-- The tokens of a family form a chain: each but the latest has been exchanged,
by one request, for the next. -/
structure FamilyInv (s : AuthStore) : Prop where
  hashes : (s.db.refresh_tokens.map RefreshToken.token_hash).Nodup
  /-- Only the latest token of a family can be valid. -/
  live : ∀ row ∈ s.db.refresh_tokens, row.is_valid = true →
    latest s.db.refresh_tokens row.family_id = some row.token_hash
  /-- What a refresh has read is in the table, perhaps with another flag. -/
  rotating : ∀ r db_rt, s.calls r = .rotating db_rt → ∃ row ∈ s.db.refresh_tokens,
    row.token_hash = db_rt.token_hash ∧ row.family_id = db_rt.family_id
  /-- A token that was exchanged is not the latest of its family. -/
  spent : ∀ r token_hash, (s.calls r).exchanged = some token_hash →
    ∃ row ∈ s.db.refresh_tokens, row.token_hash = token_hash ∧
      latest s.db.refresh_tokens row.family_id ≠ some token_hash
  /-- A token that is not the latest of its family was exchanged. -/
  followed : ∀ row ∈ s.db.refresh_tokens,
    latest s.db.refresh_tokens row.family_id ≠ some row.token_hash →
    ∃ r, (s.calls r).exchanged = some row.token_hash
  once : s.ExchangedOnce

/-- A list in which the distinct keys of all rows are one and the same key. -/
theorem length_le_one_of_nodup_map {α β : Type*} {f : α → β} {rows : List α} {key : β}
    (hnodup : (rows.map f).Nodup) (hkey : ∀ row ∈ rows, f row = key) : rows.length ≤ 1 := by
  have hmap : rows.map f = List.replicate rows.length key := by
    rw [List.eq_replicate_iff, List.length_map]
    exact ⟨rfl, by simpa using hkey⟩
  rw [hmap] at hnodup
  exact List.nodup_replicate.mp hnodup

section Chain

variable {env : AuthEnv} {s s' : AuthStore} {a : AuthStep} {r : ℕ}

theorem AuthStore.Initial.familyInv (h : s.Initial) : FamilyInv s := by
  have hcall : ∀ r, (s.calls r).exchanged = none := fun r => by rw [h.idle r]; rfl
  refine ⟨?_, ?_, fun r db_rt hr => ?_, fun r token_hash hr => ?_, ?_, fun r _ token_hash hr => ?_⟩
  · rw [h.no_tokens]
    exact List.nodup_nil
  · rw [h.no_tokens]
    exact List.forall_mem_nil _
  · rw [h.idle r] at hr
    cases hr
  · rw [hcall r] at hr
    cases hr
  · rw [h.no_tokens]
    exact List.forall_mem_nil _
  · rw [hcall r] at hr
    cases hr

theorem FamilyInv.oneLive (h : FamilyInv s) : s.OneLive := by
  refine ⟨fun family_id => ?_, h.once⟩
  -- all valid tokens of the family are its latest
  have hlatest : ∀ row ∈ s.db.refresh_tokens.filter fun row =>
      decide (row.family_id = family_id ∧ row.is_valid = true),
      some row.token_hash = latest s.db.refresh_tokens family_id := by
    intro row hrow
    obtain ⟨hmem, htest⟩ := List.mem_filter.mp hrow
    obtain ⟨rfl, hvalid⟩ := of_decide_eq_true htest
    exact (h.live row hmem hvalid).symm
  refine length_le_one_of_nodup_map ?_ hlatest
  have hsub := (List.filter_sublist (l := s.db.refresh_tokens)
    (p := fun row => decide (row.family_id = family_id ∧ row.is_valid = true))).map
    RefreshToken.token_hash
  have hnodup := (h.hashes.sublist hsub).map (Option.some_injective String)
  rwa [List.map_map] at hnodup

/-- Where a step leaves the exchanges of all requests as they were. -/
theorem AuthStore.exchanged_update {call : AuthCall} (hold : (s.calls r).exchanged = none)
    (hnew : call.exchanged = none) (q : ℕ) :
    (Function.update s.calls r call q).exchanged = (s.calls q).exchanged := by
  by_cases hq : q = r
  · rw [hq, Function.update_self, hold, hnew]
  · rw [Function.update_of_ne hq]

/-- One row per hash, so one family per hash. -/
theorem FamilyInv.row_unique (h : FamilyInv s) {row row' : RefreshToken}
    (hrow : row ∈ s.db.refresh_tokens) (hrow' : row' ∈ s.db.refresh_tokens)
    (hhash : row.token_hash = row'.token_hash) : row = row' :=
  List.inj_on_of_nodup_map h.hashes hrow hrow' hhash

/-- Invalidating tokens keeps the chains. Which token is the latest of a family depends on
the order of the rows and not on `is_valid`, so it is the same token as before, and the
valid ones have become fewer. -/
theorem FamilyInv.cleared (h : FamilyInv s) {call : AuthCall} {api_keys : List APIKey}
    {token_hashes : List String} (hold : (s.calls r).exchanged = none)
    (hnew : call.exchanged = none)
    (hread : ∀ db_rt, call = .rotating db_rt → db_rt ∈ s.db.refresh_tokens) :
    FamilyInv { db := ⟨api_keys, invalidate s.db.refresh_tokens token_hashes⟩
                calls := Function.update s.calls r call } := by
  have hex := AuthStore.exchanged_update hold hnew
  refine ⟨?_, ?_, ?_, ?_, ?_, ?_⟩ <;> dsimp only [AuthStore.ExchangedOnce]
  · rw [map_token_hash_invalidate]
    exact h.hashes
  · intro row hrow hvalid
    obtain ⟨row₀, hmem, -, -, hsame⟩ := exists_of_mem_invalidate hrow
    obtain ⟨rfl, -⟩ := hsame hvalid
    rw [latest_invalidate]
    exact h.live row₀ hmem hvalid
  · intro q db_rt hq
    have hstored : ∃ row ∈ s.db.refresh_tokens,
        row.token_hash = db_rt.token_hash ∧ row.family_id = db_rt.family_id := by
      by_cases hqr : q = r
      · rw [hqr, Function.update_self] at hq
        exact ⟨db_rt, hread db_rt hq, rfl, rfl⟩
      · rw [Function.update_of_ne hqr] at hq
        exact h.rotating q db_rt hq
    obtain ⟨row, hmem, hhash, hfamily⟩ := hstored
    obtain ⟨row', hmem', hhash', hfamily'⟩ := exists_mem_invalidate token_hashes hmem
    exact ⟨row', hmem', hhash'.trans hhash, hfamily'.trans hfamily⟩
  · intro q token_hash hq
    rw [hex q] at hq
    obtain ⟨row, hmem, hhash, hlatest⟩ := h.spent q token_hash hq
    obtain ⟨row', hmem', hhash', hfamily'⟩ := exists_mem_invalidate token_hashes hmem
    refine ⟨row', hmem', hhash'.trans hhash, ?_⟩
    rw [latest_invalidate, hfamily']
    exact hlatest
  · intro row hrow hlatest
    obtain ⟨row₀, hmem, hhash, hfamily, -⟩ := exists_of_mem_invalidate hrow
    rw [latest_invalidate, ← hfamily, ← hhash] at hlatest
    obtain ⟨q, hq⟩ := h.followed row₀ hmem hlatest
    exact ⟨q, by rw [hex q, hq, hhash]⟩
  · intro q q' token_hash hq hq'
    rw [hex q] at hq
    rw [hex q'] at hq'
    exact h.once q q' token_hash hq hq'

/-- A login opens a chain of its own. Its family id is new, so in every other family
nothing has changed, and in its own the new token is the only one. -/
theorem FamilyInv.opened (h : FamilyInv s) {response : TokenResponse} {row : RefreshToken}
    (hold : (s.calls r).exchanged = none)
    (hhash : row.token_hash ∉ s.db.refresh_tokens.map RefreshToken.token_hash)
    (hfamily : row.family_id ∉ s.db.refresh_tokens.map RefreshToken.family_id) :
    FamilyInv (s.wrote r (.logged_in response) (s.db.refresh_tokens ++ [row])) := by
  have hex : ∀ q, (Function.update s.calls r (.logged_in response) q).exchanged
      = (s.calls q).exchanged := AuthStore.exchanged_update hold rfl
  -- the other families have got no token
  have hlatest : ∀ row' ∈ s.db.refresh_tokens,
      latest (s.db.refresh_tokens ++ [row]) row'.family_id
        = latest s.db.refresh_tokens row'.family_id := by
    intro row' hrow'
    refine latest_append_of_ne _ fun heq => hfamily ?_
    rw [heq]
    exact List.mem_map_of_mem hrow'
  refine ⟨?_, ?_, ?_, ?_, ?_, ?_⟩ <;> dsimp only [AuthStore.wrote, AuthStore.ExchangedOnce]
  · rw [List.map_append, List.map_singleton, ← List.concat_eq_append]
    exact h.hashes.concat hhash
  · intro row' hrow' hvalid
    rcases List.mem_append.mp hrow' with hmem | hmem
    · rw [hlatest row' hmem]
      exact h.live row' hmem hvalid
    · rw [List.mem_singleton.mp hmem, latest_append_self]
  · -- what the other requests have read is still there
    intro q db_rt hq
    have hqr : q ≠ r := by
      rintro rfl
      rw [Function.update_self] at hq
      cases hq
    rw [Function.update_of_ne hqr] at hq
    obtain ⟨row', hmem, hsame⟩ := h.rotating q db_rt hq
    exact ⟨row', List.mem_append_left _ hmem, hsame⟩
  · intro q token_hash hq
    rw [hex q] at hq
    obtain ⟨row', hmem, hhash', hne⟩ := h.spent q token_hash hq
    refine ⟨row', List.mem_append_left _ hmem, hhash', ?_⟩
    rw [hlatest row' hmem]
    exact hne
  · intro row' hrow' hne
    rcases List.mem_append.mp hrow' with hmem | hmem
    · rw [hlatest row' hmem] at hne
      obtain ⟨q, hq⟩ := h.followed row' hmem hne
      exact ⟨q, by rw [hex q, hq]⟩
    · rw [List.mem_singleton.mp hmem, latest_append_self] at hne
      exact absurd rfl hne
  · intro q q' token_hash hq hq'
    rw [hex q] at hq
    rw [hex q'] at hq'
    exact h.once q q' token_hash hq hq'

/-- A refresh that holds the latest token of its family is the first to exchange
it. -/
theorem FamilyInv.exchanged_ne (h : FamilyInv s) {db_rt : RefreshToken}
    (hold : s.calls r = .rotating db_rt)
    (hlatest : latest s.db.refresh_tokens db_rt.family_id = some db_rt.token_hash) (q : ℕ) :
    (s.calls q).exchanged ≠ some db_rt.token_hash := by
  intro hq
  obtain ⟨row, hrow, hhash, hne⟩ := h.spent q _ hq
  obtain ⟨row', hrow', hhash', hfamily⟩ := h.rotating r db_rt hold
  have heq : row = row' := h.row_unique hrow hrow' (hhash.trans hhash'.symm)
  rw [heq, hfamily] at hne
  exact hne hlatest

/-! ### Exchanging the latest token -/

section Rotated

variable {db_rt row : RefreshToken} {response : TokenResponse}

/-- The new token is the latest of its family. -/
theorem latest_rotated_self (tokens : List RefreshToken)
    (hfamily : row.family_id = db_rt.family_id) :
    latest (invalidate tokens [db_rt.token_hash] ++ [row]) db_rt.family_id
      = some row.token_hash := by
  rw [← hfamily]
  exact latest_append_self _ row

/-- Every other family has the latest token it had. -/
theorem latest_rotated_of_ne (tokens : List RefreshToken) {family_id : ℕ}
    (hfamily : row.family_id = db_rt.family_id) (hne : family_id ≠ db_rt.family_id) :
    latest (invalidate tokens [db_rt.token_hash] ++ [row]) family_id = latest tokens family_id := by
  rw [latest_append_of_ne _ (by rw [hfamily]; exact hne.symm), latest_invalidate]

theorem exchanged_rotated_self (calls : ℕ → AuthCall) (r : ℕ) (token_hash : String)
    (response : TokenResponse) :
    (Function.update calls r (.refreshed token_hash response) r).exchanged
      = some token_hash := by
  rw [Function.update_self]
  rfl

theorem FamilyInv.live_rotated (h : FamilyInv s)
    (hlatest : latest s.db.refresh_tokens db_rt.family_id = some db_rt.token_hash)
    (hfamily : row.family_id = db_rt.family_id) {row' : RefreshToken}
    (hrow' : row' ∈ invalidate s.db.refresh_tokens [db_rt.token_hash] ++ [row])
    (hvalid : row'.is_valid = true) :
    latest (invalidate s.db.refresh_tokens [db_rt.token_hash] ++ [row]) row'.family_id
      = some row'.token_hash := by
  rcases List.mem_append.mp hrow' with hmem | hmem
  · obtain ⟨row₀, hmem₀, -, -, heq⟩ := exists_of_mem_invalidate hmem
    obtain ⟨rfl, hnot⟩ := heq hvalid
    have hlive := h.live row₀ hmem₀ hvalid
    by_cases hf : row₀.family_id = db_rt.family_id
    · -- the one valid token of the family has just been invalidated
      rw [hf, hlatest, Option.some.injEq] at hlive
      rw [← hlive] at hnot
      exact absurd (List.mem_singleton_self _) hnot
    · rw [latest_rotated_of_ne _ hfamily hf]
      exact hlive
  · rw [List.mem_singleton.mp hmem, latest_append_self]

/-- A token that has been exchanged is no longer the latest of its family. For the token
exchanged in this very step, the new row comes after it; for one that was exchanged
before, this was known, and a row added to its family makes it no later. -/
theorem FamilyInv.spent_rotated (h : FamilyInv s) (hold : s.calls r = .rotating db_rt)
    (hhash : row.token_hash ∉ s.db.refresh_tokens.map RefreshToken.token_hash)
    (hfamily : row.family_id = db_rt.family_id) {q : ℕ} {token_hash : String}
    (hq : (Function.update s.calls r (.refreshed db_rt.token_hash response) q).exchanged
      = some token_hash) :
    ∃ row' ∈ invalidate s.db.refresh_tokens [db_rt.token_hash] ++ [row],
      row'.token_hash = token_hash ∧
      latest (invalidate s.db.refresh_tokens [db_rt.token_hash] ++ [row]) row'.family_id
        ≠ some token_hash := by
  -- the row of the token is stored, and outside the family it was not the latest
  have hstored : ∃ row₀ ∈ s.db.refresh_tokens, row₀.token_hash = token_hash ∧
      (row₀.family_id ≠ db_rt.family_id →
        latest s.db.refresh_tokens row₀.family_id ≠ some token_hash) := by
    by_cases hqr : q = r
    · rw [hqr, exchanged_rotated_self, Option.some.injEq] at hq
      obtain ⟨row₀, hmem₀, hhash₀, hfamily₀⟩ := h.rotating r db_rt hold
      exact ⟨row₀, hmem₀, hhash₀.trans hq, fun hne => absurd hfamily₀ hne⟩
    · rw [Function.update_of_ne hqr] at hq
      obtain ⟨row₀, hmem₀, hhash₀, hne⟩ := h.spent q token_hash hq
      exact ⟨row₀, hmem₀, hhash₀, fun _ => hne⟩
  obtain ⟨row₀, hmem₀, hhash₀, hne⟩ := hstored
  obtain ⟨row', hmem', hhash', hfamily'⟩ := exists_mem_invalidate [db_rt.token_hash] hmem₀
  refine ⟨row', List.mem_append_left _ hmem', hhash'.trans hhash₀, ?_⟩
  rw [hfamily']
  by_cases hf : row₀.family_id = db_rt.family_id
  · -- in the family the new token has taken its place
    rw [hf, latest_rotated_self _ hfamily, ← hhash₀]
    intro heq
    rw [Option.some.injEq] at heq
    exact hhash (heq ▸ List.mem_map_of_mem hmem₀)
  · rw [latest_rotated_of_ne _ hfamily hf]
    exact hne hf

theorem FamilyInv.followed_rotated (h : FamilyInv s) (hold : s.calls r = .rotating db_rt)
    (hlatest : latest s.db.refresh_tokens db_rt.family_id = some db_rt.token_hash)
    (hfamily : row.family_id = db_rt.family_id) {row' : RefreshToken}
    (hrow' : row' ∈ invalidate s.db.refresh_tokens [db_rt.token_hash] ++ [row])
    (hne : latest (invalidate s.db.refresh_tokens [db_rt.token_hash] ++ [row]) row'.family_id
      ≠ some row'.token_hash) :
    ∃ q, (Function.update s.calls r (.refreshed db_rt.token_hash response) q).exchanged
      = some row'.token_hash := by
  rcases List.mem_append.mp hrow' with hmem | hmem
  · obtain ⟨row₀, hmem₀, hhash₀, hfamily₀, -⟩ := exists_of_mem_invalidate hmem
    rw [← hhash₀]
    by_cases hd : row₀.token_hash = db_rt.token_hash
    · exact ⟨r, by rw [exchanged_rotated_self, hd]⟩
    · -- another token that is not the latest was not the latest before
      have hne₀ : latest s.db.refresh_tokens row₀.family_id ≠ some row₀.token_hash := by
        by_cases hf : row₀.family_id = db_rt.family_id
        · rw [hf, hlatest]
          exact fun heq => hd (Option.some.inj heq).symm
        · rw [← latest_rotated_of_ne _ hfamily hf, hfamily₀, hhash₀]
          exact hne
      obtain ⟨q, hq⟩ := h.followed row₀ hmem₀ hne₀
      have hqr : q ≠ r := by
        rintro rfl
        rw [hold] at hq
        cases hq
      exact ⟨q, by rw [Function.update_of_ne hqr, hq]⟩
  · rw [List.mem_singleton.mp hmem, latest_append_self] at hne
    exact absurd rfl hne

/-- A first exchange leaves every token exchanged once. -/
theorem AuthStore.ExchangedOnce.update (h : s.ExchangedOnce) {token_hash : String}
    (hfirst : ∀ q, (s.calls q).exchanged ≠ some token_hash) {db : AuthTables} :
    AuthStore.ExchangedOnce
      { db := db, calls := Function.update s.calls r (.refreshed token_hash response) } := by
  intro q q' token_hash' hq hq'
  dsimp only at hq hq'
  by_cases hqr : q = r
  · by_cases hqr' : q' = r
    · rw [hqr, hqr']
    · rw [hqr, exchanged_rotated_self] at hq
      rw [Function.update_of_ne hqr', ← hq] at hq'
      exact absurd hq' (hfirst q')
  · rw [Function.update_of_ne hqr] at hq
    by_cases hqr' : q' = r
    · rw [hqr', exchanged_rotated_self] at hq'
      rw [← hq'] at hq
      exact absurd hq (hfirst q)
    · rw [Function.update_of_ne hqr'] at hq'
      exact h q q' token_hash' hq hq'

/-- Exchanging the latest token of a family makes the chain longer by one. -/
theorem FamilyInv.rotated (h : FamilyInv s) (hold : s.calls r = .rotating db_rt)
    (hlatest : latest s.db.refresh_tokens db_rt.family_id = some db_rt.token_hash)
    (hhash : row.token_hash ∉ s.db.refresh_tokens.map RefreshToken.token_hash)
    (hfamily : row.family_id = db_rt.family_id) :
    FamilyInv (s.wrote r (.refreshed db_rt.token_hash response)
      (invalidate s.db.refresh_tokens [db_rt.token_hash] ++ [row])) where
  hashes := by
    show ((invalidate _ _ ++ [row]).map RefreshToken.token_hash).Nodup
    rw [List.map_append, map_token_hash_invalidate, List.map_singleton, ← List.concat_eq_append]
    exact h.hashes.concat hhash
  live := fun _ hrow' hvalid => h.live_rotated hlatest hfamily hrow' hvalid
  rotating := by
    intro q db_rt' hq
    have hqr : q ≠ r := by
      rintro rfl
      rw [AuthStore.wrote_calls_self] at hq
      cases hq
    change Function.update s.calls r _ q = _ at hq
    rw [Function.update_of_ne hqr] at hq
    obtain ⟨row₀, hmem₀, hhash₀, hfamily₀⟩ := h.rotating q db_rt' hq
    obtain ⟨row', hmem', hhash', hfamily'⟩ :=
      exists_mem_invalidate [db_rt.token_hash] hmem₀
    exact ⟨row', List.mem_append_left _ hmem', hhash'.trans hhash₀, hfamily'.trans hfamily₀⟩
  spent := fun _ _ hq => h.spent_rotated hold hhash hfamily hq
  followed := fun _ hrow' hne => h.followed_rotated hold hlatest hfamily hrow' hne
  once := h.once.update (h.exchanged_ne hold hlatest)

end Rotated

/-- **The chains are kept** by every step that rotates only a latest token. Two of the
three kinds of step keep them anyway. A rotation appends a valid token, so the one it
replaces must be the only valid token of the family; that is so if it is the latest,
because in the invariant a valid token is the latest one. -/
theorem FamilyInv.step (h : FamilyInv s) (hkeep : s.keeps_latest env a = true)
    (hs : s.step env a = some s') : FamilyInv s' := by
  cases AuthStore.step_effect hs with
  | cleared r call api_keys token_hashes _ hold hnew hread => exact h.cleared hold hnew hread
  | opened r raw family_id api_key_id now _ hold hhash hfamily => exact h.opened hold hhash hfamily
  | rotated r db_rt raw now hiff hold hhash => exact h.rotated hold (hiff.mp hkeep) hhash rfl

/-- A rotation of a token that is not the latest of its family exchanges a token
for the second time. -/
theorem FamilyInv.not_once (h : FamilyInv s) (hkeep : s.keeps_latest env a = false)
    (hs : s.step env a = some s') : ¬ s'.ExchangedOnce := by
  intro honce
  cases AuthStore.step_effect hs with
  | cleared r call api_keys token_hashes htrue hold hnew hread =>
      rw [hkeep] at htrue
      cases htrue
  | opened r raw family_id api_key_id now htrue hold hhash hfamily =>
      rw [hkeep] at htrue
      cases htrue
  | rotated r db_rt raw now hiff hold hhash =>
      have hne : latest s.db.refresh_tokens db_rt.family_id ≠ some db_rt.token_hash := by
        intro heq
        rw [hiff.mpr heq] at hkeep
        cases hkeep
      obtain ⟨row, hrow, hhash', hfamily⟩ := h.rotating r db_rt hold
      obtain ⟨q, hq⟩ := h.followed row hrow (by rw [hfamily, hhash']; exact hne)
      have hqr : q ≠ r := by
        rintro rfl
        rw [hold] at hq
        cases hq
      refine hqr (honce q r db_rt.token_hash ?_ ?_)
      · show (Function.update s.calls r _ q).exchanged = _
        rw [Function.update_of_ne hqr, hq, hhash']
      · rw [AuthStore.wrote_calls_self]
        rfl

/-- What a request has exchanged it does not take back. -/
theorem AuthStore.exchanged_of_step (hs : s.step env a = some s') {q : ℕ} {token_hash : String}
    (hq : (s.calls q).exchanged = some token_hash) :
    (s'.calls q).exchanged = some token_hash := by
  have hmove : ∀ {r : ℕ} (call : AuthCall), (s.calls r).exchanged = none →
      (Function.update s.calls r call q).exchanged = some token_hash := by
    intro r call hold
    have hqr : q ≠ r := by
      rintro rfl
      rw [hold] at hq
      cases hq
    rw [Function.update_of_ne hqr, hq]
  cases AuthStore.step_effect hs with
  | cleared r call api_keys token_hashes _ hold hnew hread => exact hmove call hold
  | opened r raw family_id api_key_id now _ hold hhash hfamily => exact hmove _ hold
  | rotated r db_rt raw now hiff hold hhash => exact hmove _ (by rw [hold]; rfl)

theorem AuthStore.Initial.familyInv_of_kept {s₀ : AuthStore} (h₀ : s₀.Initial)
    {steps : List AuthStep}
    (hkept : run (restrict (AuthStore.step env) (AuthStore.keeps_latest env)) s₀ steps = some s) :
    FamilyInv s :=
  (reaches_of_run hkept).invariant FamilyInv h₀.familyInv fun _ _ _ h hkeep hs => h.step hkeep hs

/-- A run that ends with no token exchanged twice has rotated only latest
tokens. -/
theorem AuthStore.kept_of_exchangedOnce {s₀ : AuthStore} (h₀ : s₀.Initial) {steps : List AuthStep}
    (hrun : run (AuthStore.step env) s₀ steps = some s) (honce : s.ExchangedOnce) :
    run (restrict (AuthStore.step env) (AuthStore.keeps_latest env)) s₀ steps = some s := by
  -- from the last step backwards: what was exchanged stays exchanged
  induction steps using List.reverseRecOn generalizing s with
  | nil => exact hrun
  | append_singleton steps a ih =>
      rw [run_append, Option.bind_eq_some_iff] at hrun ⊢
      obtain ⟨u, hu, hlast⟩ := hrun
      rw [run_cons, Option.bind_eq_some_iff] at hlast
      obtain ⟨v, hv, hend⟩ := hlast
      cases hend
      have hkept := ih hu fun q q' token_hash hq hq' =>
        honce q q' token_hash (AuthStore.exchanged_of_step hv hq)
          (AuthStore.exchanged_of_step hv hq')
      refine ⟨u, hkept, ?_⟩
      rw [run_cons, restrict, if_pos, hv]
      · rfl
      · by_contra hkeep
        exact (h₀.familyInv_of_kept hkept).not_once (Bool.not_eq_true _ ▸ hkeep) hv honce

/-- **At most one live token per family**: a run ends with one valid token in each family
at most, and with no token exchanged by two requests, if and only if each of its rotations
commits while its token is the latest of the family. The two directions are of different
kinds. A run that keeps to the guard has the invariant, and the invariant says that the
valid tokens of a family are its latest ([`FamilyInv.step`]). A rotation that breaks the
guard is of a token that has been replaced already, so it was exchanged before, and it is
now exchanged by a second request ([`AuthStore.kept_of_exchangedOnce`]). -/
theorem one_live_iff (env : AuthEnv) (s₀ s : AuthStore) (h₀ : s₀.Initial)
    (steps : List AuthStep) (hrun : run (AuthStore.step env) s₀ steps = some s) :
    s.OneLive ↔
      run (restrict (AuthStore.step env) (AuthStore.keeps_latest env)) s₀ steps = some s := by
  constructor
  · intro hlive
    exact AuthStore.kept_of_exchangedOnce h₀ hrun hlive.once
  · intro hkept
    exact (h₀.familyInv_of_kept hkept).oneLive

end Chain

/-- A hash and an encoding to compute with. -/
def plain_auth : AuthEnv where
  sha256 := id
  jwt_encode := fun claims => claims.type

/-- One API key, and nobody logged in. -/
def one_key : AuthStore where
  db := { api_keys := [{ id := 0, key_hash := "key" }], refresh_tokens := [] }
  calls := fun _ => .idle

theorem one_key_initial : one_key.Initial := ⟨rfl, fun _ => rfl⟩

/-- The first request logs in and is given the token `t0` of family 7. -/
def first_login : List AuthStep :=
  [.login_select 0 "key", .login_touch 0 1, .login_commit 0 "t0" 7 1]

/-- The hashes and flags of all tokens, and which of the requests 1 and 2 have
been given a new one. -/
def AuthStore.sessions (s : AuthStore) : List (String × Bool) × Option String × Option String :=
  (s.db.refresh_tokens.map fun row => (row.token_hash, row.is_valid),
    (s.calls 1).exchanged, (s.calls 2).exchanged)

/-- A second refresh reads `t0` after the first has committed: the family is
revoked, and no token is left. -/
theorem one_live_iff_reused : ∃ s : AuthStore,
    s.sessions = ([("t0", false), ("t1", false)], some "t0", none) ∧ s.OneLive := by
  let steps : List AuthStep := first_login ++
    [.refresh_select 1 (some "t0") none 2, .rotate_commit 1 "t1" 2,
      .refresh_select 2 (some "t0") none 3, .revoke 2, .revoke_commit 2]
  have hkept : (run (restrict (AuthStore.step plain_auth) (AuthStore.keeps_latest plain_auth))
      one_key steps).map AuthStore.sessions
      = some ([("t0", false), ("t1", false)], some "t0", none) := by decide +kernel
  obtain ⟨s, hs, hsessions⟩ := Option.map_eq_some_iff.mp hkept
  exact ⟨s, hsessions,
    (one_live_iff plain_auth one_key s one_key_initial steps (run_of_run_restrict hs)).mpr hs⟩

/-- Two refreshes read `t0` before either commits. Both are given a new token,
and both tokens are valid. -/
theorem not_one_live : ¬ ∀ (env : AuthEnv) (s₀ s : AuthStore), s₀.Initial →
    ∀ steps : List AuthStep, run (AuthStore.step env) s₀ steps = some s → s.OneLive := by
  intro h
  let steps : List AuthStep := first_login ++
    [.refresh_select 1 (some "t0") none 2, .refresh_select 2 (some "t0") none 2,
      .rotate_commit 1 "t1" 3, .rotate_commit 2 "t2" 3]
  have hrun : (run (AuthStore.step plain_auth) one_key steps).map (fun s => (s.sessions,
      (s.db.refresh_tokens.filter fun row =>
        decide (row.family_id = 7 ∧ row.is_valid = true)).length))
      = some (([("t0", false), ("t1", true), ("t2", true)], some "t0", some "t0"), 2) := by
    decide +kernel
  obtain ⟨s, hs, hsessions⟩ := Option.map_eq_some_iff.mp hrun
  have hlive := h plain_auth one_key s one_key_initial steps hs
  have htwo := (Prod.mk.inj hsessions).2
  have hone := hlive.family 7
  omega

end EventFlow
