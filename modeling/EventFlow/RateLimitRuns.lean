/-
What the rate limit bounds.

The middleware counts by identifier, and the identifier comes from headers that
anyone can send: two requests of one peer need not share a counter
([`headers_buy_requests`]). Requests of one identifier do
([`identifier_bounded`]), whatever is in between: while its Redis counter lives,
at most `rate_limit_requests` of those that Redis answers reach the application,
and of the others at most that many in any window of the in-memory limiter.

A request is one step here. Its two charges are atomic and touch different
counters, so that requests which overlap are charged as some sequence is.
-/
import EventFlow.RateLimit
import Mathlib.Tactic.Linarith

set_option autoImplicit false

namespace EventFlow

/-! ## Counters -/

namespace RedisKeys

variable {keys : RedisKeys} {key other : String} {window : ℤ} {now t : ℚ}

/-- The time at which the counter expires that a request at `now` is charged to:
an existing one keeps its own. -/
def window_end (keys : RedisKeys) (key : String) (window : ℤ) (now : ℚ) : ℚ :=
  match (keys.live key now).bind RedisCounter.expires_at with
  | some time => time
  | none => now + window

/-- A counter is there until it expires. -/
theorem live_of_lt {counter : RedisCounter} {time : ℚ} (hkey : keys key = some counter)
    (htime : counter.expires_at = some time) (h : t < time) : keys.live key t = some counter := by
  rw [live, hkey, Option.filter_some, htime]
  simp only [h, decide_true, if_true]

/-- One without a time to live stays. -/
theorem live_of_none {counter : RedisCounter} (hkey : keys key = some counter)
    (htime : counter.expires_at = none) : keys.live key t = some counter := by
  rw [live, hkey, Option.filter_some, htime, if_pos rfl]

/-- What is live is stored and has not expired. -/
theorem of_live {counter : RedisCounter} (h : keys.live key now = some counter) :
    keys key = some counter ∧ ∀ time, counter.expires_at = some time → now < time := by
  obtain ⟨hkey, hlive⟩ := Option.filter_eq_some_iff.mp h
  refine ⟨hkey, fun time htime => ?_⟩
  rw [htime] at hlive
  exact of_decide_eq_true hlive

/-- What a stored counter shows until it expires. -/
theorem of_stored {value : ℤ} {time : ℚ} (hkey : keys key = some ⟨value, some time⟩)
    (h : t < time) : keys.window_end key window t = time ∧ keys.value key t = value := by
  have hlive := live_of_lt hkey rfl h
  constructor
  · rw [window_end, hlive]
    rfl
  · rw [RedisKeys.value, hlive]

/-- **The effect of a charge** before the end of its window: one more, under the same end.
`INCR` on a key that has expired starts at 1 and leaves it without a time to live; then
`EXPIRE NX` gives it one. On a live key the time to live stays, so the end of the window
does not move. -/
theorem charge_keys (h : now < keys.window_end key window now) :
    (keys.charge key window now).2 = Function.update keys key
      (some ⟨keys.value key now + 1, some (keys.window_end key window now)⟩) := by
  unfold charge incr window_end at *
  dsimp only
  cases hbind : (keys.live key now).bind RedisCounter.expires_at with
  | some time =>
      -- `NX` leaves the time to live alone
      rw [hbind] at h
      have hlive := live_of_lt (t := now)
        (Function.update_self key (some ⟨keys.value key now + 1, some time⟩) keys) rfl h
      rw [expire_nx, hlive]
  | none =>
      rw [hbind] at h
      have hlive := live_of_none (t := now)
        (Function.update_self key (some ⟨keys.value key now + 1, none⟩) keys) rfl
      have hwindow : ¬ window ≤ 0 := by
        have hpos : (0 : ℚ) < window := by linarith
        exact not_le.mpr (Int.cast_pos.mp hpos)
      rw [expire_nx, hlive]
      dsimp only
      rw [if_neg hwindow, Function.update_idem]

/-- `EXPIRE` does not touch other keys. -/
theorem expire_nx_of_ne (h : other ≠ key) : keys.expire_nx key window now other = keys other := by
  unfold expire_nx
  cases keys.live key now with
  | none => rfl
  | some counter =>
      obtain ⟨value, _ | time⟩ := counter
      · exact Function.update_of_ne h ..
      · rfl

/-- A charge does not touch other keys. -/
theorem charge_of_ne (h : other ≠ key) : (keys.charge key window now).2 other = keys other :=
  calc (keys.charge key window now).2 other
      = (keys.incr key now).2 other := expire_nx_of_ne h
    _ = keys other := Function.update_of_ne h ..

/-- No counter is below zero. -/
def NonNeg (keys : RedisKeys) : Prop := ∀ key counter, keys key = some counter → 0 ≤ counter.value

theorem NonNeg.value (h : keys.NonNeg) : 0 ≤ keys.value key now := by
  unfold RedisKeys.value
  cases hlive : keys.live key now with
  | none => exact le_refl 0
  | some counter => exact h key counter (of_live hlive).1

theorem NonNeg.expire_nx (h : keys.NonNeg) : (keys.expire_nx key window now).NonNeg := by
  unfold RedisKeys.expire_nx
  cases hlive : keys.live key now with
  | none => exact h
  | some counter =>
      obtain ⟨value, _ | time⟩ := counter
      · intro k found hfound
        by_cases hk : k = key
        · subst hk
          simp only [Function.update_self] at hfound
          split at hfound
          · cases hfound
          · cases hfound
            exact h k ⟨value, none⟩ (of_live hlive).1
        · simp only [Function.update_of_ne hk] at hfound
          exact h k found hfound
      · exact h

theorem NonNeg.charge (h : keys.NonNeg) : (keys.charge key window now).2.NonNeg := by
  apply NonNeg.expire_nx
  intro k found hfound
  by_cases hk : k = key
  · subst hk
    simp only [incr, Function.update_self, Option.some.injEq] at hfound
    have hvalue : 0 ≤ keys.value k now := h.value
    rw [← hfound]
    dsimp only
    omega
  · simp only [incr, Function.update_of_ne hk] at hfound
    exact h k found hfound

/-- A window looks the same from within, and a new one would end later. As long as the
counter lives, later requests find the time to live that the first one has set. -/
theorem window_end_le (h₁ : now ≤ t) (h₂ : t < keys.window_end key window now) :
    keys.window_end key window now ≤ keys.window_end key window t := by
  unfold window_end at *
  cases hlive : keys.live key now with
  | some counter =>
      obtain ⟨hkey, hexpires⟩ := of_live hlive
      rw [hlive] at h₂
      cases htime : counter.expires_at with
      | some time =>
          simp only [Option.bind_some, htime] at h₂ ⊢
          rw [live_of_lt hkey htime h₂]
          simp only [Option.bind_some, htime, le_refl]
      | none =>
          simp only [Option.bind_some, htime, live_of_none hkey htime]
          linarith
  | none =>
      have hnone : keys.live key t = none := by
        cases hkey : keys.live key t with
        | none => rfl
        | some counter =>
            -- it would have been there before
            obtain ⟨hstored, hexpires⟩ := of_live hkey
            rw [live, hstored, Option.filter_some] at hlive
            cases htime : counter.expires_at with
            | none =>
                rw [htime, if_pos rfl] at hlive
                cases hlive
            | some time =>
                have hlt : now < time := lt_of_le_of_lt h₁ (hexpires time htime)
                rw [htime] at hlive
                simp only [hlt, decide_true, if_true] at hlive
                cases hlive
      rw [hnone]
      dsimp only [Option.bind_none]
      linarith

end RedisKeys

/-! ## Sequences of requests -/

/-- A request and what it meets. -/
structure Visit where
  request : HttpRequest
  circumstances : Circumstances

/-- The dispatches of a sequence of requests. -/
def dispatches (settings : RateLimitSettings) : Limiters → List Visit → List (Visit × Dispatch)
  | _, [] => []
  | s, v :: vs =>
    let d := dispatch settings v.request v.circumstances s
    (v, d) :: dispatches settings d.limiters vs

/-- The limiters after them. -/
def Limiters.after (s : Limiters) (settings : RateLimitSettings) (vs : List Visit) : Limiters :=
  vs.foldl (fun s v => (dispatch settings v.request v.circumstances s).limiters) s

/-- The request is counted, under the identifier `x`. -/
def Visit.counts_as (settings : RateLimitSettings) (x : String) (v : Visit) : Bool :=
  v.request.limited && decide (v.request.identifier settings = x)

/-- Redis answers the request. -/
def Visit.answered (v : Visit) : Bool := decide (v.circumstances.pipeline = .answered)

/-- The request reaches the application. -/
def Dispatch.reached (d : Dispatch) : Bool := decide (.call_next ∈ d.trace)

theorem rate_limit_key_injective : Function.Injective rate_limit_key := by
  intro x y h
  have hlist := congrArg String.toList h
  simp only [rate_limit_key, String.toList_append, List.append_cancel_left_eq] at hlist
  exact String.toList_injective hlist

/-- The server has run the transaction. -/
def PipelineFate.ran : PipelineFate → Bool
  | .answered => true
  | .failed applied _ => applied

section Dispatched

variable {settings : RateLimitSettings} {request : HttpRequest} {c : Circumstances}
  {s : Limiters} {d : Dispatch}

/-- **The Redis counters after a request.** The charge is the pipeline, and whether it has
run is part of the circumstances, also when its reply is lost. -/
theorem Dispatched.redis (h : Dispatched settings request c s d) :
    d.limiters.redis = if request.limited && c.pipeline.ran then
      (s.charged settings request c.redis_time).redis else s.redis := by
  cases h with
  | passed hlim => rw [hlim, Bool.false_and, if_neg Bool.false_ne_true, pass_through]
  | @failed applied description hlim hp =>
      rw [dispatch_fallback_limiters, hlim, hp]
      cases applied <;> rfl
  | @interrupted applied description hlim hp =>
      rw [hlim, hp]
      cases applied <;> rfl
  | refused hlim hp => rw [hlim, hp]; rfl
  | served hlim hp => rw [hlim, hp]; rfl
  | raised hlim hp => rw [dispatch_fallback_limiters, hlim, hp]; rfl
  | cut hlim hp => rw [hlim, hp]; rfl

/-- A request that Redis answers reaches the application below the limit
only. -/
theorem Dispatched.value_lt (h : Dispatched settings request c s d)
    (hlim : request.limited = true) (hp : c.pipeline = .answered) (hd : d.reached = true) :
    s.redis.value (request.key settings) c.redis_time < settings.rate_limit_requests := by
  cases h with
  | passed hno =>
      rw [hlim] at hno
      cases hno
  | failed _ hp' =>
      rw [hp] at hp'
      cases hp'
  | interrupted _ hp' =>
      rw [hp] at hp'
      cases hp'
  | refused => simp [Dispatch.reached] at hd
  | served _ _ hcount => exact hcount
  | raised _ _ hcount => exact hcount
  | cut _ _ hcount => exact hcount

/-- **The in-memory limiter after a request**: it is charged or not, and a
request that Redis does not answer reaches the application only through it. -/
theorem Dispatched.memory (h : Dispatched settings request c s d) :
    (.counted (request.identifier settings) ∉ d.trace ∧ d.limiters.memory = s.memory ∧
      (request.limited = true → c.pipeline ≠ .answered → d.reached = false)) ∨
    (.counted (request.identifier settings) ∈ d.trace ∧
      d.limiters.memory = (s.memory.is_allowed (request.identifier settings)
        settings.rate_limit_requests settings.rate_limit_window_seconds c.time).2 ∧
      (c.pipeline ≠ .answered → d.reached = true →
        s.fallback_allows settings (request.identifier settings) c.time = true)) := by
  cases h with
  | passed hlim =>
      refine .inl ⟨by simp [pass_through], rfl, fun h => ?_⟩
      rw [hlim] at h
      cases h
  | @failed applied description hlim hp =>
      have hsame : (if applied then s.charged settings request c.redis_time else s).memory
          = s.memory := by cases applied <;> rfl
      refine .inr ⟨by simp [dispatch_fallback_trace], ?_, fun _ hreached => ?_⟩
      · rw [dispatch_fallback_limiters, hsame]
      · by_contra hno
        rw [Bool.not_eq_true] at hno
        rw [Limiters.fallback_allows, ← hsame, ← Limiters.fallback_allows] at hno
        rw [Dispatch.reached, dispatch_fallback_trace, hno] at hreached
        cases applied <;> simp at hreached
  | @interrupted applied description hlim hp =>
      refine .inl ⟨?_, ?_, fun _ _ => ?_⟩
      · cases applied <;> simp
      · cases applied <;> rfl
      · cases applied <;> simp [Dispatch.reached]
  | refused hlim hp => exact .inl ⟨by simp, rfl, fun _ h => absurd hp h⟩
  | served hlim hp => exact .inl ⟨by simp, rfl, fun _ h => absurd hp h⟩
  | raised hlim hp =>
      refine .inr ⟨by simp [dispatch_fallback_trace], ?_, fun h => absurd hp h⟩
      rw [dispatch_fallback_limiters]
      rfl
  | cut hlim hp => exact .inl ⟨by simp, rfl, fun _ h => absurd hp h⟩

/-- Only the counters of the identifier are charged. There is one identifier in a
dispatch, computed before anything is counted. -/
theorem Dispatched.charges (h : Dispatched settings request c s d) {event : DispatchEvent}
    (hmem : event ∈ d.trace) (hcharge : event.charges = true) :
    event = .incr (request.key settings) ∨ event = .counted (request.identifier settings) := by
  -- the fallback charges its own limiter, after what has happened in Redis
  have hone : ∀ {trace : List DispatchEvent} {calls : ℕ} {s' : Limiters},
      (∀ e ∈ trace, e = .incr (request.key settings) ∨ e = .call_next) →
      event ∈ (dispatch_fallback settings (request.identifier settings) c calls s' trace).trace →
      event = .incr (request.key settings) ∨
        event = .counted (request.identifier settings) := by
    intro trace calls s' htrace hmem
    rw [dispatch_fallback_trace] at hmem
    rcases List.mem_append.mp hmem with hmem | hmem
    · rcases htrace event hmem with heq | rfl
      · exact .inl heq
      · cases hcharge
    · rcases List.mem_cons.mp hmem with heq | hmem
      · exact .inr heq
      · split at hmem
        · rw [List.mem_singleton.mp hmem] at hcharge
          cases hcharge
        · cases hmem
  cases h with
  | passed hlim =>
      rw [List.mem_singleton.mp hmem] at hcharge
      cases hcharge
  | @failed applied description hlim hp =>
      refine hone ?_ hmem
      cases applied <;> simp
  | @interrupted applied description hlim hp =>
      cases applied with
      | true => exact .inl (List.mem_singleton.mp hmem)
      | false => cases hmem
  | refused => exact .inl (List.mem_singleton.mp hmem)
  | raised => exact hone (by simp) hmem
  | _ =>
      rcases List.mem_cons.mp hmem with heq | hmem
      · exact .inl heq
      · rw [List.mem_singleton.mp hmem] at hcharge
        cases hcharge

end Dispatched

section Visits

variable {settings : RateLimitSettings} {x : String} {from_time until_time : ℚ}

/-- The request reaches the application and is answered by Redis. -/
def through_redis (settings : RateLimitSettings) (x : String) (done : Visit × Dispatch) : Bool :=
  done.1.counts_as settings x && done.1.answered && done.2.reached

/-- In the interval, the counter of `x` does not expire and shows `k` requests
or more. -/
def Limiters.Counting (s : Limiters) (settings : RateLimitSettings) (x : String)
    (from_time until_time : ℚ) (k : ℕ) : Prop :=
  ∀ t, from_time ≤ t → t < until_time →
    until_time ≤ s.redis.window_end (rate_limit_key x) settings.rate_limit_window_seconds t ∧
      (k : ℤ) ≤ s.redis.value (rate_limit_key x) t

/-- It depends on the key of `x` alone. -/
theorem Limiters.Counting.congr {s s' : Limiters} {k : ℕ}
    (h : s.Counting settings x from_time until_time k)
    (hkey : s'.redis (rate_limit_key x) = s.redis (rate_limit_key x)) :
    s'.Counting settings x from_time until_time k := by
  intro t ht ht'
  have hlive : s'.redis.live (rate_limit_key x) t = s.redis.live (rate_limit_key x) t := by
    rw [RedisKeys.live, hkey]
    rfl
  rw [RedisKeys.window_end, RedisKeys.value, hlive]
  exact h t ht ht'

/-- A request of another identifier, or one that is not counted. -/
theorem Dispatched.redis_other {v : Visit} {s : Limiters} {d : Dispatch}
    (hd : Dispatched settings v.request v.circumstances s d)
    (hv : v.counts_as settings x = false) :
    d.limiters.redis (rate_limit_key x) = s.redis (rate_limit_key x) := by
  rw [hd.redis]
  split
  · rename_i hcharged
    rw [Bool.and_eq_true] at hcharged
    rw [Visit.counts_as, hcharged.1, Bool.true_and, decide_eq_false_iff_not] at hv
    exact RedisKeys.charge_of_ne fun h => hv (rate_limit_key_injective h).symm
  · rfl

/-- **One request**: the counter goes up with every request that Redis lets through. A
request of another identifier has another key. One of `x` that Redis does not answer may
still have been counted, which only makes the counter larger. -/
theorem Limiters.Counting.step {s : Limiters} {k : ℕ} {v : Visit} {d : Dispatch}
    (h : s.Counting settings x from_time until_time k)
    (hd : Dispatched settings v.request v.circumstances s d)
    (hv : v.counts_as settings x = true → from_time ≤ v.circumstances.redis_time ∧
      v.circumstances.redis_time < until_time) :
    d.limiters.Counting settings x from_time until_time
      (k + if through_redis settings x (v, d) then 1 else 0) := by
  cases hx : v.counts_as settings x with
  -- not a limited request of this identifier, so its counter is left alone
  | false =>
      rw [through_redis, hx]
      exact h.congr (hd.redis_other hx)
  | true =>
      obtain ⟨hfrom, huntil⟩ := hv hx
      obtain ⟨hend, hvalue⟩ := h _ hfrom huntil
      rw [Visit.counts_as, Bool.and_eq_true, decide_eq_true_eq] at hx
      obtain ⟨hlim, rfl⟩ := hx
      have hredis := hd.redis
      rw [hlim, Bool.true_and] at hredis
      cases hran : v.circumstances.pipeline.ran with
      | true =>
          rw [hran, if_pos rfl, Limiters.charged, HttpRequest.key,
            RedisKeys.charge_keys (huntil.trans_le hend)] at hredis
          intro t ht ht'
          have hstored := congrFun hredis (rate_limit_key (v.request.identifier settings))
          simp only [Function.update_self] at hstored
          obtain ⟨hend', hvalue'⟩ := RedisKeys.of_stored hstored (ht'.trans_le hend)
          rw [hend', hvalue']
          refine ⟨hend, ?_⟩
          split <;> omega
      | false =>
          have hno : v.answered = false := by
            rw [Visit.answered, decide_eq_false_iff_not]
            intro hp
            rw [hp] at hran
            cases hran
          rw [through_redis, hno, Bool.and_false, Bool.false_and]
          rw [hran, if_neg Bool.false_ne_true] at hredis
          exact h.congr (congrFun hredis _)

/-- **A sequence of requests**, of any identifiers. By induction on the requests: a
counter that has reached the limit lets no more through, and it is never reset within the
window. -/
theorem countP_through_redis {s : Limiters} {k : ℕ} {vs : List Visit}
    (h : s.Counting settings x from_time until_time k)
    (hvs : ∀ v ∈ vs, v.counts_as settings x = true → from_time ≤ v.circumstances.redis_time ∧
      v.circumstances.redis_time < until_time) :
    k + (dispatches settings s vs).countP (through_redis settings x)
      ≤ max k settings.rate_limit_requests.toNat := by
  induction vs generalizing s k with
  | nil => exact le_max_left _ _
  | cons v vs ih =>
      have hd := dispatched settings v.request v.circumstances s
      have hv := hvs v List.mem_cons_self
      have hrest := ih (h.step hd hv) fun u hu => hvs u (List.mem_cons_of_mem _ hu)
      rw [dispatches, List.countP_cons]
      cases hthrough : through_redis settings x
          (v, dispatch settings v.request v.circumstances s) with
      | false =>
          rw [hthrough, if_neg Bool.false_ne_true] at hrest
          simpa using hrest
      | true =>
          rw [hthrough, if_pos rfl] at hrest
          simp only [through_redis, Bool.and_eq_true] at hthrough
          obtain ⟨⟨hx, hanswered⟩, hreached⟩ := hthrough
          obtain ⟨hfrom, huntil⟩ := hv hx
          have hvalue := (h _ hfrom huntil).2
          rw [Visit.counts_as, Bool.and_eq_true, decide_eq_true_eq] at hx
          have hlt := hd.value_lt hx.1 (of_decide_eq_true hanswered) hreached
          rw [HttpRequest.key, hx.2] at hlt
          rw [if_pos rfl]
          omega

/-! ## The in-memory limiter in a sequence -/

/-- The call of `is_allowed` that a dispatch makes. -/
def fallback_call (settings : RateLimitSettings) (done : Visit × Dispatch) :
    Option (String × ℚ) :=
  if .counted (done.1.request.identifier settings) ∈ done.2.trace then
    some (done.1.request.identifier settings, done.1.circumstances.time)
  else none

/-- The request reaches the application without an answer of Redis, at a time in
the window that ends at `t`. -/
def through_fallback (settings : RateLimitSettings) (x : String) (t : ℚ)
    (done : Visit × Dispatch) : Bool :=
  done.1.counts_as settings x && !done.1.answered && done.2.reached &&
    decide (t - settings.rate_limit_window_seconds < done.1.circumstances.time ∧
      done.1.circumstances.time ≤ t)

open InMemoryFallbackRateLimiter in
/-- Each of them is a call that the limiter has allowed. So the bound for the limiter by
itself, which is about the calls that are made to it, applies to the requests that reach
the application through it. -/
theorem countP_through_fallback_le (s : Limiters) (vs : List Visit) (t : ℚ) :
    (dispatches settings s vs).countP (through_fallback settings x t)
      ≤ (answers settings.rate_limit_requests settings.rate_limit_window_seconds s.memory
          ((dispatches settings s vs).filterMap (fallback_call settings))).countP (fun c =>
            decide (c.identifier = x ∧ c.allowed = true ∧
              t - settings.rate_limit_window_seconds < c.time ∧ c.time ≤ t)) := by
  induction vs generalizing s with
  | nil => exact le_refl 0
  | cons v vs ih =>
      have hd := dispatched settings v.request v.circumstances s
      have hrest := ih (dispatch settings v.request v.circumstances s).limiters
      rw [dispatches, List.countP_cons, List.filterMap_cons]
      rcases hd.memory with ⟨hno, hmemory, hreached⟩ | ⟨hyes, hmemory, hreached⟩
      · -- the limiter is not asked, and the request does not count
        have hcall : fallback_call settings
            (v, dispatch settings v.request v.circumstances s) = none := if_neg hno
        have hnot : through_fallback settings x t
            (v, dispatch settings v.request v.circumstances s) = false := by
          cases hlim : v.request.limited with
          | false => simp [through_fallback, Visit.counts_as, hlim]
          | true =>
              by_cases hp : v.circumstances.pipeline = .answered
              · simp [through_fallback, Visit.answered, hp]
              · simp [through_fallback, hreached hlim hp]
        rw [hcall, hnot, if_neg Bool.false_ne_true, Nat.add_zero, ← hmemory]
        exact hrest
      · have hcall : fallback_call settings (v, dispatch settings v.request v.circumstances s)
            = some (v.request.identifier settings, v.circumstances.time) := if_pos hyes
        rw [hcall, answers, List.countP_cons]
        dsimp only
        rw [← hmemory]
        apply Nat.add_le_add hrest
        cases hthrough : through_fallback settings x t
            (v, dispatch settings v.request v.circumstances s) with
        | false => exact Nat.zero_le _
        | true =>
            simp only [through_fallback, Visit.counts_as, Visit.answered, Bool.and_eq_true,
              Bool.not_eq_true', decide_eq_true_eq, decide_eq_false_iff_not] at hthrough
            obtain ⟨⟨⟨⟨hlim, hid⟩, hanswered⟩, hcalled⟩, hwindow⟩ := hthrough
            rw [if_pos rfl, if_pos]
            exact decide_eq_true ⟨hid, hreached hanswered hcalled, hwindow⟩

/-- The calls come in the order of the requests. -/
theorem pairwise_fallback_calls {s : Limiters} {vs : List Visit}
    (hclock : (vs.map fun v => v.circumstances.time).Pairwise (· ≤ ·)) :
    (((dispatches settings s vs).filterMap (fallback_call settings)).map
      Prod.snd).Pairwise (· ≤ ·) := by
  have hsub : (((dispatches settings s vs).filterMap (fallback_call settings)).map
      Prod.snd).Sublist (vs.map fun v => v.circumstances.time) := by
    clear hclock
    induction vs generalizing s with
    | nil => exact .slnil
    | cons v vs ih =>
        rw [dispatches, List.filterMap_cons, List.map_cons, fallback_call]
        split
        · exact .cons _ ih
        · rename_i heq
          split at heq
          · cases heq
            exact .cons_cons _ ih
          · cases heq
  exact hclock.sublist hsub

/-! ## The bound -/

/-- No Redis counter is below zero. -/
theorem nonNeg_after {s : Limiters} (h : s.redis.NonNeg) (vs : List Visit) :
    (s.after settings vs).redis.NonNeg := by
  induction vs generalizing s with
  | nil => exact h
  | cons v vs ih =>
      apply ih
      rw [(dispatched settings v.request v.circumstances s).redis]
      split
      · exact h.charge
      · exact h

/-- Every dispatch of a sequence is one. -/
theorem dispatched_of_mem {s : Limiters} {vs : List Visit} {done : Visit × Dispatch}
    (h : done ∈ dispatches settings s vs) :
    ∃ s', Dispatched settings done.1.request done.1.circumstances s' done.2 := by
  induction vs generalizing s with
  | nil => cases h
  | cons v vs ih =>
      rcases List.mem_cons.mp h with rfl | h
      · exact ⟨s, dispatched ..⟩
      · exact ih h

end Visits

/-- **Requests of one identifier share their counters and their limit.** Take any requests
after any others, such that those of `x` come before the window ends that is open for `x`,
or opens, when the first of them comes. Of the requests of `x` that Redis answers, at most
`rate_limit_requests` reach the application; of the others, at most that many in any
window; and each of them is charged to the counters of `x` only. The two bounds are
independent. For Redis, the counter is followed through one life of its key
([`countP_through_redis`]); for the limiter in memory, the requests it decides are a list
of calls to it, whose times do not decrease. The last part is that a dispatch charges the
counters of its own identifier only ([`Dispatched.charges`]). -/
theorem identifier_bounded (settings : RateLimitSettings) (past : List Visit) (x : String)
    (first : Visit) (rest : List Visit)
    (hwindow : ∀ v ∈ first :: rest, v.counts_as settings x = true →
      first.circumstances.redis_time ≤ v.circumstances.redis_time ∧
      v.circumstances.redis_time < (Limiters.after {} settings past).redis.window_end
        (rate_limit_key x) settings.rate_limit_window_seconds first.circumstances.redis_time)
    (hclock : ((first :: rest).map fun v => v.circumstances.time).Pairwise (· ≤ ·)) :
    (dispatches settings (Limiters.after {} settings past) (first :: rest)).countP
        (through_redis settings x) ≤ settings.rate_limit_requests.toNat ∧
    (∀ t : ℚ, (dispatches settings (Limiters.after {} settings past) (first :: rest)).countP
        (through_fallback settings x t) ≤ settings.rate_limit_requests.toNat) ∧
    ∀ done ∈ dispatches settings (Limiters.after {} settings past) (first :: rest),
      done.1.counts_as settings x = true → ∀ event ∈ done.2.trace, event.charges = true →
        event = .incr (rate_limit_key x) ∨ event = .counted x := by
  have hnonneg : (Limiters.after {} settings past).redis.NonNeg :=
    nonNeg_after (fun _ _ h => by cases h) past
  refine ⟨?_, fun t => ?_, ?_⟩
  · -- the counter that is open at the start stays open until the end of its window
    have hcounting : (Limiters.after {} settings past).Counting settings x
        first.circumstances.redis_time ((Limiters.after {} settings past).redis.window_end
          (rate_limit_key x) settings.rate_limit_window_seconds
          first.circumstances.redis_time) 0 := by
      intro t ht ht'
      exact ⟨RedisKeys.window_end_le ht ht', hnonneg.value⟩
    have hbound := countP_through_redis hcounting hwindow
    rwa [Nat.zero_add, Nat.zero_max] at hbound
  · exact (countP_through_fallback_le _ _ t).trans
      (countP_allowed_le (pairwise_fallback_calls hclock) x t)
  · intro done hdone hx event hevent hcharge
    obtain ⟨s', hd⟩ := dispatched_of_mem hdone
    rw [Visit.counts_as, Bool.and_eq_true, decide_eq_true_eq] at hx
    have hevent := hd.charges hevent hcharge
    rw [HttpRequest.key, hx.2] at hevent
    exact hevent

/-- A request with an `X-Forwarded-For` header, at a given time. Redis is up and
the application answers. -/
def forwarded (address : String) (time : ℚ) : Visit where
  request := post_request [("x-forwarded-for", address)]
  circumstances :=
    { redis_time := time
      pipeline := .answered
      time := time
      call_next := fun _ => .ok { status_code := 200, content := .body [] } }

/-- Three requests with the same header, and two of them for a limit of two. -/
theorem identifier_bounded_trio :
    ((dispatches { rate_limit_requests := 2 } (Limiters.after {} { rate_limit_requests := 2 } [])
        [forwarded "1.1.1.1" 0, forwarded "1.1.1.1" 1, forwarded "1.1.1.1" 2]).map
          fun done => done.2.reached) = [true, true, false] ∧
      (dispatches { rate_limit_requests := 2 } (Limiters.after {} { rate_limit_requests := 2 } [])
        [forwarded "1.1.1.1" 0, forwarded "1.1.1.1" 1, forwarded "1.1.1.1" 2]).countP
          (through_redis { rate_limit_requests := 2 } "1.1.1.1") ≤ 2 := by
  refine ⟨by decide +kernel, ?_⟩
  refine (identifier_bounded { rate_limit_requests := 2 } [] "1.1.1.1" (forwarded "1.1.1.1" 0)
    [forwarded "1.1.1.1" 1, forwarded "1.1.1.1" 2] ?_ (by decide +kernel)).1
  decide +kernel

/-- **A header buys a request.** One peer, a limit of one, two requests within
one window that differ in `X-Forwarded-For`: both reach the application. -/
theorem headers_buy_requests :
    ¬ ∀ (settings : RateLimitSettings) (visits : List Visit) (peer : String),
      (∀ v ∈ visits, v.request.limited = true ∧ v.request.client = some peer ∧
        v.answered = true) →
      (∀ v ∈ visits, ∀ u ∈ visits, u.circumstances.redis_time
        < v.circumstances.redis_time + settings.rate_limit_window_seconds) →
      (dispatches settings {} visits).countP (fun done => done.2.reached)
        ≤ settings.rate_limit_requests.toNat := by
  intro h
  have hbound := h { rate_limit_requests := 1 } [forwarded "1.1.1.1" 0, forwarded "2.2.2.2" 1]
    "10.0.0.7" (by decide +kernel) (by decide +kernel)
  revert hbound
  decide +kernel

end EventFlow
