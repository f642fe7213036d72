/-
`api/middleware/rate_limit.py`: `RateLimitMiddleware`.

A request under `/api/` is counted in Redis, under the value of one of its
headers or the address of its peer, and in `_in_memory_limiter` when Redis is
down. `redis.asyncio` and the application behind the middleware are not part of
the repository: what the two Redis commands do to a counter follows their
documentation, and how the pipeline and `call_next` end is an argument
([`Circumstances`]).

The `try` statement that is meant for Redis covers `call_next` as well:
[`dispatch_runs_once_iff`] says when that matters.
-/
import EventFlow.FallbackLimiter
import EventFlow.Json

set_option autoImplicit false

namespace EventFlow

/-! ## Requests and responses -/

/-- The settings that the middleware reads, with their defaults. -/
structure RateLimitSettings where
  rate_limit_requests : ℤ := 100
  rate_limit_window_seconds : ℤ := 60
  api_key_header_name : String := "X-EventFlow-API-Key"

/-- What the middleware reads of a request. The names of the headers are in
lower case; `client` is the host of the peer. -/
structure HttpRequest where
  method : String
  path : String
  headers : List (String × String)
  client : Option String

/-- `request.headers.get(name)`. -/
def HttpRequest.header (request : HttpRequest) (name : String) : Option String :=
  request.headers.lookup name.toLower

/-- `text.startswith(start)`. -/
def starts_with (text start : String) : Bool := start.toList.isPrefixOf text.toList

/-- `char.isspace()` for the characters of a header value, which are Latin-1. -/
def is_space (c : Char) : Bool :=
  c.toNat ∈ [0x09, 0x0a, 0x0b, 0x0c, 0x0d, 0x1c, 0x1d, 0x1e, 0x1f, 0x20, 0x85, 0xa0]

/-- `text.split(",")[0].strip()`. -/
def first_entry (text : String) : String :=
  let entry := (text.toList.takeWhile (· ≠ ',')).dropWhile is_space
  String.ofList (entry.reverse.dropWhile is_space).reverse

/-- The exclusions of the middleware. -/
def HttpRequest.exempt (request : HttpRequest) : Bool :=
  request.method = "GET" &&
    (request.path ∈ ["/api/v1/metrics/summary", "/health/live", "/health/ready"] ||
      starts_with request.path "/health/")

/-- The requests that are counted. -/
def HttpRequest.limited (request : HttpRequest) : Bool :=
  starts_with request.path "/api/" && !request.exempt

/-- `client_ip`: an empty header is like none. -/
def HttpRequest.client_ip (request : HttpRequest) : String :=
  match request.header "X-Forwarded-For" with
  | some forwarded =>
    if forwarded = "" then request.client.getD "unknown" else first_entry forwarded
  | none => request.client.getD "unknown"

/-- `identifier`. -/
def HttpRequest.identifier (request : HttpRequest) (settings : RateLimitSettings) : String :=
  match request.header settings.api_key_header_name with
  | some api_key => if api_key = "" then request.client_ip else api_key
  | none => request.client_ip

/-- The content of a response: the middleware makes one kind itself. -/
inductive HttpContent where
  | json (content : JsonObject)
  | body (bytes : List UInt8)

structure HttpResponse where
  status_code : ℕ
  content : HttpContent
  headers : List (String × String) := []

/-- `response.headers[name] = value`: the first header of that name is replaced
and later ones go, or one is added. -/
def set_header (name value : String) : List (String × String) → List (String × String)
  | [] => [(name.toLower, value)]
  | header :: headers =>
    if header.1 = name.toLower then
      (name.toLower, value) :: headers.filter fun other => decide (other.1 ≠ name.toLower)
    else header :: set_header name value headers

/-- The headers of a response that was let through. -/
def HttpResponse.counted (response : HttpResponse) (limit remaining : ℤ) : HttpResponse :=
  { response with
    headers := set_header "X-RateLimit-Remaining" (toString remaining)
      (set_header "X-RateLimit-Limit" (toString limit) response.headers) }

/-- The response with status 429. -/
def too_many_requests (limit window : ℤ) : HttpResponse :=
  let response : HttpResponse :=
    { status_code := 429
      content := .json [("detail", .str "Too many requests, please try again later.")] }
  { response with
    headers := set_header "X-RateLimit-Reset" (toString window)
      (set_header "X-RateLimit-Remaining" "0"
        (set_header "X-RateLimit-Limit" (toString limit) response.headers)) }

/-! ## Redis -/

/-- A counter, with the time at which it expires. -/
structure RedisCounter where
  value : ℤ
  expires_at : Option ℚ

/-- The keys of the middleware in Redis. -/
abbrev RedisKeys := String → Option RedisCounter

/-- The counter under a key, unless it has expired. -/
def RedisKeys.live (keys : RedisKeys) (key : String) (now : ℚ) : Option RedisCounter :=
  (keys key).filter fun counter =>
    match counter.expires_at with
    | some time => decide (now < time)
    | none => true

/-- The value under a key; a key that is not there counts from zero. -/
def RedisKeys.value (keys : RedisKeys) (key : String) (now : ℚ) : ℤ :=
  match keys.live key now with
  | some counter => counter.value
  | none => 0

/-- `INCR key`, with its reply. The time to live of the key is kept. -/
def RedisKeys.incr (keys : RedisKeys) (key : String) (now : ℚ) : ℤ × RedisKeys :=
  let value := keys.value key now + 1
  (value, Function.update keys key
    (some ⟨value, (keys.live key now).bind RedisCounter.expires_at⟩))

/-- `EXPIRE key seconds NX`: only a key without a time to live is touched, and
one that should live no longer is deleted. -/
def RedisKeys.expire_nx (keys : RedisKeys) (key : String) (seconds : ℤ) (now : ℚ) : RedisKeys :=
  match keys.live key now with
  | some ⟨value, none⟩ =>
    Function.update keys key (if seconds ≤ 0 then none else some ⟨value, some (now + seconds)⟩)
  | _ => keys

/-- The transaction of the pipeline, with the reply to its first command. -/
def RedisKeys.charge (keys : RedisKeys) (key : String) (window : ℤ) (now : ℚ) : ℤ × RedisKeys :=
  let counted := keys.incr key now
  (counted.1, counted.2.expire_nx key window now)

/-! ## The middleware -/

/-- What a call can raise. -/
inductive Raised where
  /-- An `Exception`. -/
  | exception (description : String)
  /-- What is not one: the task is cancelled, the interpreter exits. -/
  | interruption (description : String)
deriving DecidableEq

/-- How the Redis calls of a request end, from `get_redis` to the end of the
pipeline. -/
inductive PipelineFate where
  | answered
  /-- Something raises; the server may have run the transaction by then. -/
  | failed (applied : Bool) (raised : Raised)
deriving DecidableEq

/-- What a request meets: its time for Redis, how Redis takes it, the reading of
`time.time()` and how each call of `call_next` ends. -/
structure Circumstances where
  redis_time : ℚ
  pipeline : PipelineFate
  time : ℚ
  call_next : ℕ → Except Raised HttpResponse

/-- The counters of both limiters. -/
structure Limiters where
  redis : RedisKeys := fun _ => none
  memory : InMemoryFallbackRateLimiter := {}

/-- What a dispatch does to the outside. -/
inductive DispatchEvent where
  /-- The Redis counter of a key is charged. -/
  | incr (key : String)
  /-- The in-memory limiter is charged. -/
  | counted (identifier : String)
  | call_next
deriving DecidableEq

/-- How a dispatch ends. -/
structure Dispatch where
  result : Except Raised HttpResponse
  limiters : Limiters
  trace : List DispatchEvent

/-- `return await call_next(request)`. -/
def pass_through (c : Circumstances) (s : Limiters) : Dispatch :=
  ⟨c.call_next 0, s, [.call_next]⟩

/-- The `except` branch, after `calls` calls of the application. -/
def dispatch_fallback (settings : RateLimitSettings) (identifier : String) (c : Circumstances)
    (calls : ℕ) (s : Limiters) (trace : List DispatchEvent) : Dispatch :=
  let limit := settings.rate_limit_requests
  let window := settings.rate_limit_window_seconds
  let ((allowed, remaining), memory) := s.memory.is_allowed identifier limit window c.time
  let s := { s with memory }
  let trace := trace ++ [.counted identifier]
  if !allowed then ⟨.ok (too_many_requests limit window), s, trace⟩
  else
    match c.call_next calls with
    | .ok response => ⟨.ok (response.counted limit remaining), s, trace ++ [.call_next]⟩
    | .error raised => ⟨.error raised, s, trace ++ [.call_next]⟩

/-- The key of an identifier. -/
def rate_limit_key (identifier : String) : String := "rate_limit:" ++ identifier

/-- `RateLimitMiddleware.dispatch`. -/
def dispatch (settings : RateLimitSettings) (request : HttpRequest) (c : Circumstances)
    (s : Limiters) : Dispatch :=
  if !starts_with request.path "/api/" then pass_through c s
  else if request.exempt then pass_through c s
  else
    let identifier := request.identifier settings
    let limit := settings.rate_limit_requests
    let window := settings.rate_limit_window_seconds
    let key := rate_limit_key identifier
    let (request_count, redis) := s.redis.charge key window c.redis_time
    match c.pipeline with
    | .failed applied raised =>
      let s := if applied then { s with redis } else s
      let trace : List DispatchEvent := if applied then [.incr key] else []
      match raised with
      | .exception _ => dispatch_fallback settings identifier c 0 s trace
      | .interruption _ => ⟨.error raised, s, trace⟩
    | .answered =>
      let s := { s with redis }
      if request_count > limit then ⟨.ok (too_many_requests limit window), s, [.incr key]⟩
      else
        match c.call_next 0 with
        | .ok response =>
          ⟨.ok (response.counted limit (max 0 (limit - request_count))), s,
            [.incr key, .call_next]⟩
        -- the `except` is for Redis and catches what the application raises
        | .error (.exception _) =>
          dispatch_fallback settings identifier c 1 s [.incr key, .call_next]
        | .error (.interruption description) =>
          ⟨.error (.interruption description), s, [.incr key, .call_next]⟩

/-! ## The ways through it -/

/-- The Redis counter that a request is charged to. -/
def HttpRequest.key (request : HttpRequest) (settings : RateLimitSettings) : String :=
  rate_limit_key (request.identifier settings)

/-- The limiters after the transaction of the pipeline. -/
def Limiters.charged (s : Limiters) (settings : RateLimitSettings) (request : HttpRequest)
    (now : ℚ) : Limiters :=
  { s with redis := (s.redis.charge (request.key settings)
      settings.rate_limit_window_seconds now).2 }

/-- The reply to a charge. -/
theorem charge_count (keys : RedisKeys) (key : String) (window : ℤ) (now : ℚ) :
    (keys.charge key window now).1 = keys.value key now + 1 := rfl

/-- The ways a dispatch can go. -/
inductive Dispatched (settings : RateLimitSettings) (request : HttpRequest) (c : Circumstances)
    (s : Limiters) : Dispatch → Prop
  | passed (hlim : request.limited = false) :
      Dispatched settings request c s (pass_through c s)
  /-- Redis fails. -/
  | failed {applied : Bool} {description : String} (hlim : request.limited = true)
      (hp : c.pipeline = .failed applied (.exception description)) :
      Dispatched settings request c s
        (dispatch_fallback settings (request.identifier settings) c 0
          (if applied then s.charged settings request c.redis_time else s)
          (if applied then [.incr (request.key settings)] else []))
  /-- The request is interrupted while it waits for Redis. -/
  | interrupted {applied : Bool} {description : String} (hlim : request.limited = true)
      (hp : c.pipeline = .failed applied (.interruption description)) :
      Dispatched settings request c s
        ⟨.error (.interruption description),
          if applied then s.charged settings request c.redis_time else s,
          if applied then [.incr (request.key settings)] else []⟩
  /-- The limit is reached. -/
  | refused (hlim : request.limited = true) (hp : c.pipeline = .answered)
      (hcount : settings.rate_limit_requests
        ≤ s.redis.value (request.key settings) c.redis_time) :
      Dispatched settings request c s
        ⟨.ok (too_many_requests settings.rate_limit_requests
            settings.rate_limit_window_seconds),
          s.charged settings request c.redis_time, [.incr (request.key settings)]⟩
  | served {response : HttpResponse} {remaining : ℤ} (hlim : request.limited = true)
      (hp : c.pipeline = .answered)
      (hcount : s.redis.value (request.key settings) c.redis_time
        < settings.rate_limit_requests)
      (hnext : c.call_next 0 = .ok response) :
      Dispatched settings request c s
        ⟨.ok (response.counted settings.rate_limit_requests remaining),
          s.charged settings request c.redis_time, [.incr (request.key settings), .call_next]⟩
  /-- The application raises, and the request goes to the other limiter. -/
  | raised {description : String} (hlim : request.limited = true)
      (hp : c.pipeline = .answered)
      (hcount : s.redis.value (request.key settings) c.redis_time
        < settings.rate_limit_requests)
      (hnext : c.call_next 0 = .error (.exception description)) :
      Dispatched settings request c s
        (dispatch_fallback settings (request.identifier settings) c 1
          (s.charged settings request c.redis_time) [.incr (request.key settings), .call_next])
  /-- It is interrupted. -/
  | cut {description : String} (hlim : request.limited = true) (hp : c.pipeline = .answered)
      (hcount : s.redis.value (request.key settings) c.redis_time
        < settings.rate_limit_requests)
      (hnext : c.call_next 0 = .error (.interruption description)) :
      Dispatched settings request c s
        ⟨.error (.interruption description), s.charged settings request c.redis_time,
          [.incr (request.key settings), .call_next]⟩

/-- **Inversion of `dispatch`.** One constructor for each way through the function, with
the trace it leaves. The claims below are read off these, and `dispatch` is not opened
again. -/
theorem dispatched (settings : RateLimitSettings) (request : HttpRequest) (c : Circumstances)
    (s : Limiters) : Dispatched settings request c s (dispatch settings request c s) := by
  unfold dispatch
  split
  · rename_i hpath
    apply Dispatched.passed
    rw [HttpRequest.limited, Bool.and_eq_false_iff]
    exact .inl (by simpa using hpath)
  rename_i hpath
  split
  · rename_i hexempt
    apply Dispatched.passed
    rw [HttpRequest.limited, hexempt, Bool.not_true, Bool.and_false]
  rename_i hexempt
  have hlim : request.limited = true := by
    rw [Bool.not_eq_true, Bool.not_eq_false'] at hpath
    rw [Bool.not_eq_true] at hexempt
    rw [HttpRequest.limited, hpath, hexempt]
    rfl
  dsimp only
  split
  · rename_i applied raised hp
    split
    · exact .failed hlim hp
    · exact .interrupted hlim hp
  · rename_i hp
    rw [charge_count]
    split
    · rename_i hcount
      exact .refused hlim hp (by rw [HttpRequest.key]; omega)
    · rename_i hcount
      have hcount : s.redis.value (request.key settings) c.redis_time
          < settings.rate_limit_requests := by
        rw [HttpRequest.key]
        omega
      split
      · rename_i hnext
        exact .served hlim hp hcount hnext
      · rename_i hnext
        exact .raised hlim hp hcount hnext
      · rename_i hnext
        exact .cut hlim hp hcount hnext

section Dispatch

variable {settings : RateLimitSettings} {request : HttpRequest} {c : Circumstances}
  {s : Limiters}

/-! ## The fallback -/

variable {x : String} {calls : ℕ} {trace : List DispatchEvent}

/-- The answer of the in-memory limiter. -/
def Limiters.fallback_allows (s : Limiters) (settings : RateLimitSettings) (x : String)
    (now : ℚ) : Bool :=
  (s.memory.is_allowed x settings.rate_limit_requests settings.rate_limit_window_seconds now).1.1

/-- It counts the request, once, and calls the application if that is allowed. -/
theorem dispatch_fallback_trace :
    (dispatch_fallback settings x c calls s trace).trace = trace ++
      .counted x :: if s.fallback_allows settings x c.time then [.call_next] else [] := by
  unfold dispatch_fallback Limiters.fallback_allows
  dsimp only
  split
  · rename_i hno
    rw [Bool.not_eq_true'] at hno
    rw [hno]
    rfl
  · rename_i hyes
    rw [Bool.not_eq_true, Bool.not_eq_false'] at hyes
    rw [hyes]
    split <;> simp

theorem dispatch_fallback_limiters :
    (dispatch_fallback settings x c calls s trace).limiters
      = { s with memory := (s.memory.is_allowed x settings.rate_limit_requests
            settings.rate_limit_window_seconds c.time).2 } := by
  unfold dispatch_fallback
  dsimp only
  split
  · rfl
  · split <;> rfl

/-- Nothing catches what the application raises here. -/
theorem dispatch_fallback_result {raised : Raised}
    (hyes : s.fallback_allows settings x c.time = true)
    (hnext : c.call_next calls = .error raised) :
    (dispatch_fallback settings x c calls s trace).result = .error raised := by
  unfold dispatch_fallback
  rw [Limiters.fallback_allows] at hyes
  simp only [hyes, hnext, Bool.not_true, Bool.false_eq_true, if_false]

end Dispatch

/-! ## Once -/

/-- The events that charge a limiter. -/
def DispatchEvent.charges : DispatchEvent → Bool
  | .incr _ => true
  | .counted _ => true
  | .call_next => false

/-- A dispatch that runs its request at most once. -/
structure RunsOnce (c : Circumstances) (d : Dispatch) : Prop where
  once : d.trace.count .call_next ≤ 1
  one_limiter : d.trace.countP DispatchEvent.charges ≤ 1
  /-- What a call of the application raises is what the caller gets. -/
  propagates : ∀ k < d.trace.count .call_next, ∀ raised, c.call_next k = .error raised →
    d.result = .error raised

section Once

variable {settings : RateLimitSettings} {request : HttpRequest} {c : Circumstances}
  {s : Limiters} {d : Dispatch} {x : String}

/-- The application is not called. -/
theorem RunsOnce.of_no_call (hcalls : d.trace.count .call_next = 0)
    (hcharges : d.trace.countP DispatchEvent.charges ≤ 1) : RunsOnce c d := by
  refine ⟨by omega, hcharges, fun k hk => ?_⟩
  omega

/-- It is called, and the caller gets what it raises. -/
theorem RunsOnce.of_one_call (hcalls : d.trace.count .call_next = 1)
    (hcharges : d.trace.countP DispatchEvent.charges ≤ 1)
    (hresult : ∀ raised, c.call_next 0 = .error raised → d.result = .error raised) :
    RunsOnce c d := by
  refine ⟨by omega, hcharges, fun k hk => ?_⟩
  obtain rfl : k = 0 := by omega
  exact hresult

/-- A request that comes to the fallback with nothing done. -/
theorem runsOnce_fallback : RunsOnce c (dispatch_fallback settings x c 0 s []) := by
  cases hallow : s.fallback_allows settings x c.time with
  | true =>
      have htrace : (dispatch_fallback settings x c 0 s []).trace = [.counted x, .call_next] := by
        rw [dispatch_fallback_trace, hallow]
        rfl
      refine .of_one_call (by rw [htrace]; rfl) (by rw [htrace]; rfl) fun raised hnext => ?_
      exact dispatch_fallback_result hallow hnext
  | false =>
      have htrace : (dispatch_fallback settings x c 0 s []).trace = [.counted x] := by
        rw [dispatch_fallback_trace, hallow]
        rfl
      exact .of_no_call (by rw [htrace]; rfl) (by rw [htrace]; rfl)

/-- A request that was charged before comes to be charged twice. -/
theorem not_runsOnce_fallback {calls : ℕ} {key : String} {trace : List DispatchEvent}
    (hkey : .incr key ∈ trace) : ¬ RunsOnce c (dispatch_fallback settings x c calls s trace) := by
  intro h
  have hone := h.one_limiter
  have hpos : 0 < trace.countP DispatchEvent.charges :=
    List.countP_pos_iff.mpr ⟨.incr key, hkey, rfl⟩
  rw [dispatch_fallback_trace, List.countP_append, List.countP_cons_of_pos rfl] at hone
  omega

end Once

/-- **When the middleware runs a request at most once**: unless the request is counted and
either Redis lets it through and the application raises an `Exception`, or Redis has
charged it and then raises one. Of the ways through the function, two go to the fallback
after Redis has charged: the pipeline raises although its commands have run, and the
application raises inside the `try`. There the second limiter is charged too
([`not_runsOnce_fallback`]). In all others at most one limiter is charged and `call_next`
is called at most once, with its exception passed on. -/
theorem dispatch_runs_once_iff (settings : RateLimitSettings) (request : HttpRequest)
    (c : Circumstances) (s : Limiters) :
    RunsOnce c (dispatch settings request c s) ↔
      ¬ (request.limited = true ∧
        ((c.pipeline = .answered ∧
            s.redis.value (request.key settings) c.redis_time < settings.rate_limit_requests ∧
            ∃ description, c.call_next 0 = .error (.exception description)) ∨
          ∃ description, c.pipeline = .failed true (.exception description))) := by
  have hd := dispatched settings request c s
  generalize dispatch settings request c s = d at hd ⊢
  cases hd with
  | passed hlim =>
      constructor
      · rintro - ⟨h, -⟩
        rw [hlim] at h
        cases h
      · exact fun _ => .of_one_call rfl (Nat.zero_le 1) fun _ hnext => hnext
  -- Redis fails: the request is charged twice if the `INCR` has been applied
  | @failed applied description hlim hp =>
      cases applied with
      | true =>
          constructor
          · exact fun h => absurd h (not_runsOnce_fallback List.mem_cons_self)
          · exact fun h => absurd ⟨hlim, .inr ⟨description, hp⟩⟩ h
      | false =>
          constructor
          · rw [hp]
            rintro - ⟨-, ⟨h, -⟩ | ⟨_, h⟩⟩ <;> cases h
          · exact fun _ => runsOnce_fallback
  | @interrupted applied description hlim hp =>
      constructor
      · rw [hp]
        rintro - ⟨-, ⟨h, -⟩ | ⟨_, h⟩⟩ <;> cases h
      · intro _
        cases applied with
        | true => exact .of_no_call rfl (le_refl 1)
        | false => exact .of_no_call rfl (Nat.zero_le 1)
  | refused hlim hp hcount =>
      constructor
      · rw [hp]
        rintro - ⟨-, ⟨-, h, -⟩ | ⟨_, h⟩⟩
        · omega
        · cases h
      · exact fun _ => .of_no_call rfl (le_refl 1)
  | served hlim hp hcount hnext =>
      constructor
      · rw [hp, hnext]
        rintro - ⟨-, ⟨-, -, _, h⟩ | ⟨_, h⟩⟩ <;> cases h
      · refine fun _ => .of_one_call rfl (le_refl 1) fun raised hraised => ?_
        rw [hnext] at hraised
        cases hraised
  -- the handler fails: it is called again by the fallback
  | @raised description hlim hp hcount hnext =>
      constructor
      · exact fun h => absurd h (not_runsOnce_fallback List.mem_cons_self)
      · exact fun h => absurd ⟨hlim, .inl ⟨hp, hcount, description, hnext⟩⟩ h
  | cut hlim hp hcount hnext =>
      constructor
      · rw [hp, hnext]
        rintro - ⟨-, ⟨-, -, _, h⟩ | ⟨_, h⟩⟩ <;> cases h
      · refine fun _ => .of_one_call rfl (le_refl 1) fun raised hraised => ?_
        rw [← hraised, hnext]

/-- A request that starts work. -/
def post_request (headers : List (String × String)) : HttpRequest where
  method := "POST"
  path := "/api/v1/executions"
  headers := headers
  client := some "10.0.0.7"

/-- The application raises whenever it is called. -/
def broken : Circumstances where
  redis_time := 0
  pipeline := .answered
  time := 0
  call_next _ := .error (.exception "boom")

/-- **An error of the application runs the request again.** Redis lets it
through, the application raises, and this is taken for an error of Redis: the request is
counted in the other limiter too and `call_next` is called a second time. Only the
exception of the second call reaches the caller. -/
theorem handler_error_runs_twice :
    (dispatch {} (post_request []) broken {}).trace
        = [.incr "rate_limit:10.0.0.7", .call_next, .counted "10.0.0.7", .call_next] ∧
      (dispatch {} (post_request []) broken {}).result = .error (.exception "boom") ∧
      ¬ RunsOnce broken (dispatch {} (post_request []) broken {}) := by
  have htrace : (dispatch {} (post_request []) broken {}).trace
      = [.incr "rate_limit:10.0.0.7", .call_next, .counted "10.0.0.7", .call_next] := by
    decide +kernel
  refine ⟨htrace, rfl, fun h => ?_⟩
  have honce := h.once
  rw [htrace] at honce
  revert honce
  decide

end EventFlow
