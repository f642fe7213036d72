/-
The web client of `frontend/src/lib/api.ts`: `request` and `refreshAccessToken`,
against the refresh endpoint of `api/auth.py`.

A browser holds one pair of cookies and any number of calls of `request`. A call
whose access token is refused refreshes the session on its own account and sends
its request again. A request carries the cookies that the jar holds when it is
sent; a `Set-Cookie` takes effect when its response arrives. The endpoints a
call is made to are those behind `require_api_key`, so `/auth/token` and
`/auth/refresh`, which `request` leaves alone, are not among them.

Two calls that are refused at the same time present one refresh token twice, and
the server takes the second for a theft ([`not_client_keeps_session`]). Calls
whose refreshes do not overlap never do that ([`client_keeps_session`]).
-/
import EventFlow.Sessions

set_option autoImplicit false

namespace EventFlow

open Transition

/-! ## The browser -/

/-- An `AuthEnv` with `jwt.decode`, which returns the claims of a token whose
signature is right. -/
structure WebEnv extends AuthEnv where
  jwt_decode : String → Option AccessClaims

/-- Whether `get_current_principal_from_token` accepts the cookie. -/
def authorized (env : WebEnv) (jwt : Option String) (now : ℕ) : Bool :=
  ((truthy jwt).bind env.jwt_decode).any fun claims =>
    decide (claims.type = "access" ∧ now < claims.exp)

structure CookieJar where
  eventflow_jwt : Option String
  eventflow_refresh : Option String

/-- How far a call of `request` has come. -/
inductive ClientCall where
  /-- The request is on its way, with the cookie it was sent with. -/
  | sent (jwt : Option String)
  /-- The response is on its way. -/
  | answered (status : ℕ)
  /-- A 401 has arrived. -/
  | unauthorized
  /-- The request of `refreshAccessToken` is on its way. -/
  | refreshing (cookie : Option String)
  /-- The response of the refresh is on its way. -/
  | refreshed (result : Except AuthError TokenResponse)
  /-- `refreshAccessToken` has returned true. -/
  | retrying
  /-- The request is on its way for the second time. -/
  | resent (jwt : Option String)
  | reanswered (status : ℕ)
  /-- The call has returned, or thrown an `ApiError`, on a response with this
  status. -/
  | returned (status : ℕ)
deriving DecidableEq

/-- A refresh of this call has been sent and its response has not arrived. -/
def ClientCall.in_flight : ClientCall → Bool
  | .refreshing _ => true
  | .refreshed _ => true
  | _ => false

/-- The tables of the server, the cookies, and the calls in the order in which
they were made. -/
structure Browser where
  db : AuthTables
  jar : CookieJar
  calls : List ClientCall

inductive ClientStep where
  /-- A call is made, and its request is sent. -/
  | send
  /-- The server answers the request of call `i`; `status` is what the endpoint
  returns to a caller it accepts. -/
  | serve (i now status : ℕ)
  /-- The response for call `i` arrives. -/
  | arrive (i : ℕ)
  /-- `refreshAccessToken` is called. -/
  | send_refresh (i : ℕ)
  /-- The server answers the refresh of call `i`. -/
  | serve_refresh (i : ℕ) (raw : String) (now : ℕ)
  /-- The request is sent again. -/
  | resend (i : ℕ)

namespace Browser

def goto (s : Browser) (i : ℕ) (call : ClientCall) : Browser :=
  { s with calls := s.calls.set i call }

variable (env : WebEnv)

def step (s : Browser) : ClientStep → Option Browser
  | .send => some { s with calls := s.calls ++ [.sent s.jar.eventflow_jwt] }
  | .serve i now status =>
    match s.calls[i]? with
    | some (.sent jwt) =>
      some (s.goto i (.answered (if authorized env jwt now then status else 401)))
    | some (.resent jwt) =>
      some (s.goto i (.reanswered (if authorized env jwt now then status else 401)))
    | _ => none
  | .arrive i =>
    match s.calls[i]? with
    | some (.answered status) =>
      some (s.goto i (if status = 401 then .unauthorized else .returned status))
    | some (.refreshed (.ok response)) =>
      some { s.goto i .retrying with
        jar := ⟨some response.access_token, some response.refresh_token⟩ }
    -- the call goes on to `/login` and throws on the response it had
    | some (.refreshed (.error _)) => some (s.goto i (.returned 401))
    | some (.reanswered status) => some (s.goto i (.returned status))
    | _ => none
  | .send_refresh i =>
    match s.calls[i]? with
    | some .unauthorized => some (s.goto i (.refreshing s.jar.eventflow_refresh))
    | _ => none
  | .serve_refresh i raw now =>
    match s.calls[i]? with
    | some (.refreshing cookie) =>
      -- `secrets.token_urlsafe` returns no empty string
      if raw = "" then none
      else
        some { s.goto i (.refreshed (refresh_access_token env.toAuthEnv s.db cookie none raw now).1)
          with db := (refresh_access_token env.toAuthEnv s.db cookie none raw now).2 }
    | _ => none
  | .resend i =>
    match s.calls[i]? with
    | some .retrying => some (s.goto i (.resent s.jar.eventflow_jwt))
    | _ => none

/-- A refresh is sent only while no other one is on its way. -/
def refreshes_alone (s : Browser) : ClientStep → Bool
  | .send_refresh _ => s.calls.all fun call => !call.in_flight
  | _ => true

/-- The cookie is a refresh token that is stored and valid. -/
def ValidCookie (env : WebEnv) (db : AuthTables) (cookie : Option String) : Prop :=
  ∃ token row, truthy cookie = some token ∧
    select_refresh_token db.refresh_tokens (env.sha256 token) = some row ∧ row.is_valid = true

/-- The session that a statement starts from: a refresh token that is valid and
has not expired, and an access token that is not accepted any more. -/
structure Initial (s : Browser) (now : ℕ) : Prop where
  calls : s.calls = []
  refresh : ∃ token row, truthy s.jar.eventflow_refresh = some token ∧
    select_refresh_token s.db.refresh_tokens (env.sha256 token) = some row ∧
    row.is_valid = true ∧ now ≤ row.expires_at
  access : authorized env s.jar.eventflow_jwt now = false

/-- No refresh that is on its way to the server is a reuse. -/
def NoReuse (s : Browser) : Prop :=
  ∀ cookie, ClientCall.refreshing cookie ∈ s.calls → ∀ raw now,
    (refresh_access_token env.toAuthEnv s.db cookie none raw now).1 ≠ .error .token_reused

/-- Every call has returned. -/
def AllReturned (s : Browser) : Prop :=
  ∀ call ∈ s.calls, ∃ status, call = .returned status

end Browser

/-! ## What a step does -/

/-- What a step does to the refreshes that are on their way. -/
inductive ClientEffect (env : WebEnv) (s : Browser) (a : ClientStep) : Browser → Prop
  /-- The refreshes on their way are the same. -/
  | moved (calls : List ClientCall)
      (hsame : ∀ (i : ℕ) (call : ClientCall), call.in_flight = true →
        (calls[i]? = some call ↔ s.calls[i]? = some call)) :
      ClientEffect env s a { s with calls := calls }
  /-- A refresh is sent with the cookie of the jar. -/
  | sent (i : ℕ) (ha : a = .send_refresh i) (hi : i < s.calls.length) :
      ClientEffect env s a (s.goto i (.refreshing s.jar.eventflow_refresh))
  /-- The server answers a refresh. -/
  | served (i : ℕ) (cookie : Option String) (raw : String) (now : ℕ)
      (hcall : s.calls[i]? = some (.refreshing cookie)) (hraw : raw ≠ "") :
      ClientEffect env s a
        { s.goto i (.refreshed (refresh_access_token env.toAuthEnv s.db cookie none raw now).1)
          with db := (refresh_access_token env.toAuthEnv s.db cookie none raw now).2 }
  /-- New cookies arrive. -/
  | arrived (i : ℕ) (response : TokenResponse)
      (hcall : s.calls[i]? = some (.refreshed (.ok response))) :
      ClientEffect env s a { s.goto i .retrying with
        jar := ⟨some response.access_token, some response.refresh_token⟩ }
  /-- A refusal arrives. -/
  | failed (i : ℕ) (err : AuthError) (hcall : s.calls[i]? = some (.refreshed (.error err))) :
      ClientEffect env s a (s.goto i (.returned 401))

section Effects

variable {env : WebEnv} {s s' : Browser} {a : ClientStep} {i : ℕ}

theorem Browser.lt_of_call {call : ClientCall} (h : s.calls[i]? = some call) :
    i < s.calls.length := by
  by_contra hle
  rw [List.getElem?_eq_none (by omega)] at h
  cases h

/-- A call that is not refreshing goes on to something else. -/
theorem ClientEffect.goto {old new : ClientCall} (hcall : s.calls[i]? = some old)
    (hold : old.in_flight = false) (hnew : new.in_flight = false) :
    ClientEffect env s a (s.goto i new) := by
  refine .moved _ ?_
  intro j call hcallj
  by_cases hij : i = j
  · subst hij
    rw [List.getElem?_set_self (Browser.lt_of_call hcall), hcall]
    constructor
    · intro heq
      cases heq
      rw [hnew] at hcallj
      cases hcallj
    · intro heq
      cases heq
      rw [hold] at hcallj
      cases hcallj
  · rw [List.getElem?_set_ne hij]

theorem ClientEffect.send (jwt : Option String) :
    ClientEffect env s a { s with calls := s.calls ++ [.sent jwt] } := by
  refine .moved _ ?_
  intro j call hcallj
  by_cases hj : j < s.calls.length
  · rw [List.getElem?_append_left hj]
  · rw [List.getElem?_append_right (by omega), List.getElem?_eq_none (l := s.calls) (by omega)]
    constructor
    · intro heq
      have hmem := List.mem_of_getElem? heq
      rw [List.mem_singleton.mp hmem] at hcallj
      cases hcallj
    · intro heq
      cases heq

/-- All that a step can do to the tables and to what is on its way: nothing, a refresh
that is sent, one that is served, and one whose response arrives. A call that is not
refreshing changes neither the tables nor the cookies. -/
theorem Browser.step_effect (hs : s.step env a = some s') : ClientEffect env s a s' := by
  cases a with
  | send =>
      cases hs
      exact .send _
  | serve i now status =>
      simp only [Browser.step] at hs
      split at hs
      · rename_i hcall
        cases hs
        exact .goto hcall rfl rfl
      · rename_i hcall
        cases hs
        exact .goto hcall rfl rfl
      · cases hs
  | arrive i =>
      simp only [Browser.step] at hs
      split at hs
      · rename_i status hcall
        cases hs
        refine .goto hcall rfl ?_
        split <;> rfl
      · rename_i response hcall
        cases hs
        exact .arrived i response hcall
      · rename_i err hcall
        cases hs
        exact .failed i err hcall
      · rename_i hcall
        cases hs
        exact .goto hcall rfl rfl
      · cases hs
  | send_refresh i =>
      simp only [Browser.step] at hs
      split at hs
      · rename_i hcall
        cases hs
        exact .sent i rfl (Browser.lt_of_call hcall)
      · cases hs
  | serve_refresh i raw now =>
      simp only [Browser.step] at hs
      split at hs
      · rename_i cookie hcall
        split at hs
        · cases hs
        · rename_i hraw
          cases hs
          exact .served i cookie raw now hcall hraw
      · cases hs
  | resend i =>
      simp only [Browser.step] at hs
      split at hs
      · rename_i hcall
        cases hs
        exact .goto hcall rfl rfl
      · cases hs

end Effects

/-! ## One refresh at a time -/

/-- The refresh token that the browser holds once the refresh of a call is
over. -/
def ClientCall.carries (jar : CookieJar) : ClientCall → Option String
  | .refreshed (.ok response) => some response.refresh_token
  | _ => jar.eventflow_refresh

/-- Either no refresh is on its way and the cookie is valid, or exactly one is,
and what the browser will hold after it is valid. -/
inductive RefreshPhase (env : WebEnv) (s : Browser) : Prop
  | quiet (hnone : ∀ (j : ℕ) (call : ClientCall), s.calls[j]? = some call →
        call.in_flight = false)
      (hvalid : Browser.ValidCookie env s.db s.jar.eventflow_refresh)
  | busy (i : ℕ) (call : ClientCall) (hcall : s.calls[i]? = some call)
      (hin : call.in_flight = true)
      (honly : ∀ (j : ℕ) (other : ClientCall), s.calls[j]? = some other →
        other.in_flight = true → j = i)
      (hvalid : Browser.ValidCookie env s.db (call.carries s.jar))
      (hcurrent : ∀ cookie, call = .refreshing cookie → cookie = s.jar.eventflow_refresh)

section Phases

variable {env : WebEnv} {s s' : Browser} {a : ClientStep} {i : ℕ}

/-- The call that is on its way is the one a busy phase is about. -/
theorem RefreshPhase.of_call (h : RefreshPhase env s) {call : ClientCall}
    (hcall : s.calls[i]? = some call) (hin : call.in_flight = true) :
    (∀ (j : ℕ) (other : ClientCall), s.calls[j]? = some other →
        other.in_flight = true → j = i) ∧
      Browser.ValidCookie env s.db (call.carries s.jar) ∧
      ∀ cookie, call = .refreshing cookie → cookie = s.jar.eventflow_refresh := by
  cases h with
  | quiet hnone hvalid =>
      rw [hnone i call hcall] at hin
      cases hin
  | busy k call' hcall' hin' honly hvalid hcurrent =>
      have hik := honly i call hcall hin
      subst hik
      rw [hcall] at hcall'
      cases hcall'
      exact ⟨honly, hvalid, hcurrent⟩

/-- The row a refresh with a valid cookie finds. -/
theorem Browser.ValidCookie.presented {db : AuthTables} {cookie : Option String}
    (h : Browser.ValidCookie env db cookie) : ∃ token row, presented cookie none = some token ∧
      select_refresh_token db.refresh_tokens (env.sha256 token) = some row ∧
      row.is_valid = true := by
  obtain ⟨token, row, htoken, hrow, hvalid⟩ := h
  refine ⟨token, row, ?_, hrow, hvalid⟩
  unfold EventFlow.presented
  rw [htoken]
  rfl

/-- A valid cookie is exchanged, or refused for another reason. -/
theorem Browser.ValidCookie.not_reused {db : AuthTables} {cookie : Option String}
    (h : Browser.ValidCookie env db cookie) (raw : String) (now : ℕ) :
    (refresh_access_token env.toAuthEnv db cookie none raw now).1 ≠ .error .token_reused := by
  obtain ⟨token, row, hpresented, hrow, hvalid⟩ := h.presented
  have hout := refresh_outcome env.toAuthEnv db cookie none raw now
  generalize refresh_access_token env.toAuthEnv db cookie none raw now = out at hout ⊢
  intro heq
  cases hout with
  | refused err hlive herr =>
      cases heq
      exact herr rfl
  | reused token' db_rt hpresented' hselect hvalid' =>
      rw [hpresented] at hpresented'
      cases hpresented'
      rw [hrow] at hselect
      cases hselect
      rw [hvalid] at hvalid'
      cases hvalid'
  | rotated token' db_rt hpresented' hselect hvalid' hnow hfresh => cases heq

/-- What the browser holds once the answer has arrived is valid again. -/
theorem Browser.ValidCookie.refresh {db : AuthTables} {jar : CookieJar} {raw : String}
    (h : Browser.ValidCookie env db jar.eventflow_refresh) (hraw : raw ≠ "") (now : ℕ)
    {out : Except AuthError TokenResponse × AuthTables}
    (hout : refresh_access_token env.toAuthEnv db jar.eventflow_refresh none raw now = out) :
    Browser.ValidCookie env out.2 ((ClientCall.refreshed out.1).carries jar) := by
  have houtcome := refresh_outcome env.toAuthEnv db jar.eventflow_refresh none raw now
  rw [hout] at houtcome
  cases houtcome with
  | refused err hlive herr => exact h
  | reused token' db_rt hpresented' hselect hvalid' =>
      exact absurd (congrArg Prod.fst hout) (h.not_reused raw now)
  | rotated token' db_rt hpresented' hselect hvalid' hnow hfresh =>
      refine ⟨raw, new_refresh_token env.toAuthEnv raw db_rt.family_id db_rt.api_key_id now,
        ?_, ?_, rfl⟩
      · simp [truthy, ClientCall.carries, token_response, hraw]
      · -- the hash of the new token is not among the rows from before
        have hnone : select_refresh_token
            (invalidate db.refresh_tokens [db_rt.token_hash]) (env.sha256 raw) = none := by
          unfold select_refresh_token
          rw [List.find?_eq_none]
          intro row' hrow' heq
          rw [decide_eq_true_eq] at heq
          apply hfresh
          rw [← map_token_hash_invalidate db.refresh_tokens [db_rt.token_hash], ← heq]
          exact List.mem_map_of_mem hrow'
        unfold select_refresh_token at hnone ⊢
        rw [List.find?_append, hnone, Option.none_or]
        exact List.find?_cons_of_pos (decide_eq_true rfl)

/-- Nothing but call `i` is on its way, whatever call `i` goes on to. -/
theorem only_of_set (new : ClientCall)
    (honly : ∀ (j : ℕ) (other : ClientCall), s.calls[j]? = some other →
      other.in_flight = true → j = i)
    (j : ℕ) (other : ClientCall) (hother : (s.calls.set i new)[j]? = some other)
    (hin : other.in_flight = true) : j = i := by
  by_contra hne
  rw [List.getElem?_set_ne (Ne.symm hne)] at hother
  exact hne (honly j other hother hin)

/-- The one refresh on its way is over. -/
theorem none_of_set {new : ClientCall} (hi : i < s.calls.length) (hnew : new.in_flight = false)
    (honly : ∀ (j : ℕ) (other : ClientCall), s.calls[j]? = some other →
      other.in_flight = true → j = i)
    (j : ℕ) (other : ClientCall) (hother : (s.calls.set i new)[j]? = some other) :
    other.in_flight = false := by
  by_contra hin
  rw [Bool.not_eq_false] at hin
  have hj := only_of_set new honly j other hother hin
  rw [hj, List.getElem?_set_self hi, Option.some.injEq] at hother
  rw [← hother, hnew] at hin
  cases hin

/-- **The phases are kept** by every step that sends no refresh while another is on its
way. While a refresh is on its way the token it carries may be spent already, with its
successor in the response, and no other call presents one. When the response arrives the
jar has the successor, and the next refresh may begin. -/
theorem RefreshPhase.step (h : RefreshPhase env s) (halone : s.refreshes_alone a = true)
    (hs : s.step env a = some s') : RefreshPhase env s' := by
  cases Browser.step_effect hs with
  | moved calls hsame =>
      -- the tables and the jar are the same, and so is what is on its way
      cases h with
      | quiet hnone hvalid =>
          refine .quiet ?_ hvalid
          intro j call hcall
          by_contra hin
          rw [Bool.not_eq_false] at hin
          rw [hnone j call ((hsame j call hin).mp hcall)] at hin
          cases hin
      | busy i call hcall hin honly hvalid hcurrent =>
          refine .busy i call ((hsame i call hin).mpr hcall) hin ?_ hvalid hcurrent
          intro j other hother hinother
          exact honly j other ((hsame j other hinother).mp hother) hinother
  | sent i ha hi =>
      -- by the condition nothing was on its way, so the cookie is valid
      subst ha
      have hnone : ∀ (j : ℕ) (call : ClientCall), s.calls[j]? = some call →
          call.in_flight = false := by
        intro j call hcall
        have hmem := List.mem_of_getElem? hcall
        simpa using List.all_eq_true.mp halone call hmem
      have hvalid : Browser.ValidCookie env s.db s.jar.eventflow_refresh := by
        cases h with
        | quiet _ hvalid => exact hvalid
        | busy k call hcall hin _ _ _ =>
            rw [hnone k call hcall] at hin
            cases hin
      refine .busy i _ (List.getElem?_set_self hi) rfl ?_ hvalid ?_
      · apply only_of_set
        intro j other hother hin
        rw [hnone j other hother] at hin
        cases hin
      · intro cookie heq
        cases heq
        rfl
  | served i cookie raw now hcall hraw =>
      -- the refresh carries the cookie of the jar, which is valid
      obtain ⟨honly, hvalid, hcurrent⟩ := h.of_call hcall rfl
      obtain rfl := hcurrent cookie rfl
      refine .busy i _ (List.getElem?_set_self (Browser.lt_of_call hcall)) rfl
        (only_of_set _ honly) (hvalid.refresh hraw now rfl) ?_
      intro cookie heq
      cases heq
  | arrived i response hcall =>
      -- the jar takes what the response has carried
      obtain ⟨honly, hvalid, -⟩ := h.of_call hcall rfl
      exact .quiet (none_of_set (Browser.lt_of_call hcall) rfl honly) hvalid
  | failed i err hcall =>
      -- the jar stays as it was when the refresh was sent
      obtain ⟨honly, hvalid, -⟩ := h.of_call hcall rfl
      exact .quiet (none_of_set (Browser.lt_of_call hcall) rfl honly) hvalid

theorem Browser.Initial.phase {now : ℕ} (h : s.Initial env now) : RefreshPhase env s := by
  obtain ⟨token, row, htoken, hrow, hvalid, -⟩ := h.refresh
  refine .quiet ?_ ⟨token, row, htoken, hrow, hvalid⟩
  intro j call hcall
  rw [h.calls] at hcall
  cases hcall

/-- **The web client keeps its session** as long as it sends no refresh while another is
on its way: in every order of sends, server steps and responses, no refresh is taken for a
reuse, and when all calls have returned the browser holds a valid refresh token. The token
of a refresh that reaches the server is the one in the jar, and no other refresh has been
served since; so it is still valid, and that is the first half. For the second, no refresh
is on its way at the end, and then the jar holds the valid token. -/
theorem client_keeps_session (env : WebEnv) (s₀ s : Browser) (now : ℕ)
    (h₀ : s₀.Initial env now)
    (hrun : Reaches (Browser.step env) (fun s a => s.refreshes_alone a = true) s₀ s) :
    s.NoReuse env ∧
      (s.AllReturned → Browser.ValidCookie env s.db s.jar.eventflow_refresh) := by
  have hphase : RefreshPhase env s :=
    hrun.invariant (RefreshPhase env) h₀.phase fun _ _ _ h halone hs => h.step halone hs
  constructor
  · intro cookie hmem raw now hreused
    obtain ⟨i, hcall⟩ := List.getElem?_of_mem hmem
    obtain ⟨-, hvalid, hcurrent⟩ := hphase.of_call hcall rfl
    obtain rfl := hcurrent cookie rfl
    exact Browser.ValidCookie.not_reused hvalid raw now hreused
  · intro hreturned
    -- a call that has returned is not on its way
    cases hphase with
    | quiet _ hvalid => exact hvalid
    | busy i call hcall hin _ _ _ =>
        obtain ⟨status, rfl⟩ := hreturned call (List.mem_of_getElem? hcall)
        cases hin

end Phases

/-- A server whose access tokens last a minute. The token for a time is as many
letters long. -/
def web_auth : WebEnv where
  sha256 := id
  jwt_encode := fun claims => String.ofList (List.replicate claims.exp 'x')
  jwt_decode := fun jwt => some { api_key_id := 0, exp := jwt.length }
  jwt_access_token_expire_minutes := 1

/-- A browser that has logged in at time 1, at time 100. -/
def logged_in : Browser where
  db := (login_for_access_token web_auth.toAuthEnv one_key.db "key" "t0" 7 1).2
  jar := { eventflow_jwt := some (create_access_token web_auth.toAuthEnv 0 1)
           eventflow_refresh := some "t0" }
  calls := []

theorem logged_in_initial : logged_in.Initial web_auth 100 where
  calls := rfl
  refresh := by
    refine ⟨"t0", new_refresh_token web_auth.toAuthEnv "t0" 7 0 1, ?_, ?_, rfl, ?_⟩ <;>
      decide +kernel
  access := by decide +kernel

/-- The refresh tokens of the server and the one of the browser, and the calls. -/
def Browser.view (s : Browser) :
    List (String × Bool) × Option String × List ClientCall :=
  (s.db.refresh_tokens.map fun row => (row.token_hash, row.is_valid),
    s.jar.eventflow_refresh, s.calls)

/-- One call on its own is refused, refreshes the session and is accepted. -/
theorem client_keeps_session_alone : ∃ s : Browser,
    s.view = ([("t0", false), ("t1", true)], some "t1", [.returned 200]) ∧
    Browser.ValidCookie web_auth s.db s.jar.eventflow_refresh := by
  have hrun : (run (restrict (Browser.step web_auth) Browser.refreshes_alone) logged_in
      [.send, .serve 0 100 200, .arrive 0, .send_refresh 0, .serve_refresh 0 "t1" 101, .arrive 0,
        .resend 0, .serve 0 102 200, .arrive 0]).map Browser.view
      = some ([("t0", false), ("t1", true)], some "t1", [.returned 200]) := by decide +kernel
  obtain ⟨s, hs, hview⟩ := Option.map_eq_some_iff.mp hrun
  refine ⟨s, hview, ?_⟩
  refine (client_keeps_session web_auth logged_in s 100 logged_in_initial (reaches_of_run hs)).2 ?_
  have hcalls : s.calls = [.returned 200] := congrArg (fun view => view.2.2) hview
  intro call hcall
  rw [hcalls] at hcall
  exact ⟨200, List.mem_singleton.mp hcall⟩

/-- Two calls are refused, and both refresh with `t0`. The second refresh
revokes the family; when both calls have returned the browser is left with `t1`,
which is not valid. -/
theorem not_client_keeps_session : ¬ ∀ (env : WebEnv) (s₀ s : Browser) (now : ℕ),
    s₀.Initial env now → Reaches (Browser.step env) (fun _ _ => True) s₀ s →
    s.NoReuse env ∧
      (s.AllReturned → Browser.ValidCookie env s.db s.jar.eventflow_refresh) := by
  intro h
  have hrun : (run (restrict (Browser.step web_auth) fun _ _ => true) logged_in
      [.send, .send, .serve 0 100 200, .serve 1 100 200, .arrive 0, .arrive 1,
        .send_refresh 0, .send_refresh 1, .serve_refresh 0 "t1" 101, .serve_refresh 1 "t2" 101,
        .arrive 0, .arrive 1, .resend 0, .serve 0 102 200, .arrive 0]).map Browser.view
      = some ([("t0", false), ("t1", false)], some "t1", [.returned 200, .returned 401]) := by
    decide +kernel
  obtain ⟨s, hs, hview⟩ := Option.map_eq_some_iff.mp hrun
  have hcalls : s.calls = [.returned 200, .returned 401] := congrArg (fun view => view.2.2) hview
  have hrows : s.db.refresh_tokens.map (fun row => (row.token_hash, row.is_valid))
      = [("t0", false), ("t1", false)] := congrArg Prod.fst hview
  have hvalid := (h web_auth logged_in s 100 logged_in_initial
    ((reaches_of_run hs).mono fun _ _ _ => trivial)).2 ?_
  · -- no row of the tables is valid any more
    obtain ⟨token, row, -, hrow, htrue⟩ := hvalid
    have hmem := List.mem_map_of_mem (f := fun row : RefreshToken => (row.token_hash, row.is_valid))
      (mem_of_select hrow).1
    rw [hrows, htrue] at hmem
    simp at hmem
  · intro call hcall
    rw [hcalls] at hcall
    simp only [List.mem_cons, List.not_mem_nil, or_false] at hcall
    rcases hcall with rfl | rfl
    · exact ⟨200, rfl⟩
    · exact ⟨401, rfl⟩

end EventFlow
