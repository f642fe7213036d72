/-
`api/middleware/rate_limit.py`: `InMemoryFallbackRateLimiter`.

The limiter keeps the times of the calls of each identifier, refused ones
included, and prunes them at every call. Readings of `time.time()` are exact
numbers here. [`requests_after`] says what the lists hold after any calls, and
[`fallback_sliding_window`] what the answers are.
-/
import EventFlow.Library.SlidingWindow
import Mathlib.Algebra.Order.Ring.Rat
import Mathlib.Tactic.Ring

set_option autoImplicit false

namespace EventFlow

open SlidingWindow

/-! ## The limiter -/

/-- The `_requests` of the limiter, a `defaultdict(list)`. -/
structure InMemoryFallbackRateLimiter where
  requests : String → List ℚ := fun _ => []

/-- `InMemoryFallbackRateLimiter.is_allowed` at the reading `now`: the answer
with the requests that remain, and the limiter it leaves. The lock is held
throughout, so that calls do not interleave. -/
def InMemoryFallbackRateLimiter.is_allowed (self : InMemoryFallbackRateLimiter)
    (identifier : String) (limit window : ℤ) (now : ℚ) :
    (Bool × ℤ) × InMemoryFallbackRateLimiter :=
  let cutoff := now - window
  let timestamps := ((self.requests identifier).filter fun t => decide (t > cutoff)) ++ [now]
  let count : ℤ := timestamps.length
  ((decide (count ≤ limit), max 0 (limit - count)),
    { requests := Function.update self.requests identifier timestamps })

/-- A call of `is_allowed` with its answer. -/
structure AnsweredCall where
  identifier : String
  time : ℚ
  allowed : Bool
deriving DecidableEq

/-- The answers to a sequence of calls, given as identifiers and clock
readings. -/
def InMemoryFallbackRateLimiter.answers (limit window : ℤ) :
    InMemoryFallbackRateLimiter → List (String × ℚ) → List AnsweredCall
  | _, [] => []
  | self, call :: calls =>
    let answered := self.is_allowed call.1 limit window call.2
    ⟨call.1, call.2, answered.1.1⟩ :: answers limit window answered.2 calls

/-- The limiter after a sequence of calls. -/
def InMemoryFallbackRateLimiter.after (self : InMemoryFallbackRateLimiter) (limit window : ℤ)
    (calls : List (String × ℚ)) : InMemoryFallbackRateLimiter :=
  calls.foldl (fun limiter call => (limiter.is_allowed call.1 limit window call.2).2) self

/-- The readings at the calls of one identifier. -/
def times_of (x : String) (calls : List (String × ℚ)) : List ℚ :=
  (calls.filter fun call => decide (call.1 = x)).map Prod.snd

/-! ## What the lists hold -/

section Limiter

variable {self : InMemoryFallbackRateLimiter} {limit window : ℤ} {x y : String} {now : ℚ}
  {calls : List (String × ℚ)}

theorem times_of_append (xs ys : List (String × ℚ)) :
    times_of x (xs ++ ys) = times_of x xs ++ times_of x ys := by
  rw [times_of, List.filter_append, List.map_append]
  rfl

theorem mem_times_of {t : ℚ} (h : t ∈ times_of x calls) : t ∈ calls.map Prod.snd := by
  obtain ⟨call, hcall, rfl⟩ := List.mem_map.mp h
  exact List.mem_map_of_mem (List.mem_filter.mp hcall).1

/-- The list of the identifier: one pruning and one entry. -/
theorem is_allowed_requests_self :
    (self.is_allowed x limit window now).2.requests x
      = recent (window : ℚ) now (self.requests x) ++ [now] :=
  Function.update_self ..

/-- The lists of the others. -/
theorem is_allowed_requests_of_ne (h : y ≠ x) :
    (self.is_allowed x limit window now).2.requests y = self.requests y :=
  Function.update_of_ne h ..

/-- The answer: the call counts itself. -/
theorem is_allowed_iff : (self.is_allowed x limit window now).1.1 = true ↔
    ((recent (window : ℚ) now (self.requests x)).length : ℤ) + 1 ≤ limit := by
  rw [InMemoryFallbackRateLimiter.is_allowed, decide_eq_true_eq, List.length_append,
    List.length_singleton, Nat.cast_add, Nat.cast_one]
  rfl

/-- **The list of an identifier after any calls** is its own log, pruned at each of its
calls. A call prunes and extends the list of its identifier and leaves the others alone.
-/
theorem requests_after (calls : List (String × ℚ)) :
    (self.after limit window calls).requests x
      = keep (window : ℚ) (self.requests x) (times_of x calls) := by
  induction calls using List.reverseRecOn with
  | nil => rfl
  | append_singleton calls call ih =>
      obtain ⟨y, t⟩ := call
      rw [InMemoryFallbackRateLimiter.after, List.foldl_append, List.foldl_cons, List.foldl_nil,
        times_of_append]
      by_cases hxy : y = x
      · subst hxy
        have hself : times_of y [(y, t)] = [t] := by simp [times_of]
        rw [hself, is_allowed_requests_self, keep_concat, ← ih]
        rfl
      · have hother : times_of x [(y, t)] = [] := by simp [times_of, hxy]
        rw [hother, List.append_nil, is_allowed_requests_of_ne (Ne.symm hxy), ← ih]
        rfl

/-- **The answer after any calls** that are not later than it. Refused calls are kept in
the list and count, which is why the right side has no answers in it. -/
theorem is_allowed_after_iff (hclock : ∀ t ∈ calls.map Prod.snd, t ≤ now) :
    ((self.after limit window calls).is_allowed x limit window now).1.1 = true ↔
      ((recent (window : ℚ) now (self.requests x ++ times_of x calls)).length : ℤ) + 1
        ≤ limit := by
  rw [is_allowed_iff, requests_after, recent_keep fun t ht => hclock t (mem_times_of ht)]

/-! ## The answers -/

open InMemoryFallbackRateLimiter

/-- **An answer in its sequence**: what came before it, and how it was found. It lets a
statement about an answer be read as one about the limiter at that moment. -/
theorem answers_eq_append {before after : List AnsweredCall} {c : AnsweredCall}
    (h : answers limit window self calls = before ++ c :: after) :
    ∃ earlier rest, calls = earlier ++ (c.identifier, c.time) :: rest ∧
      before = answers limit window self earlier ∧
      c.allowed = ((self.after limit window earlier).is_allowed c.identifier limit window
        c.time).1.1 := by
  induction calls generalizing self before with
  | nil => simp [answers] at h
  | cons call calls ih =>
      rw [answers] at h
      cases before with
      | nil =>
          rw [List.nil_append, List.cons.injEq] at h
          obtain ⟨rfl, -⟩ := h
          exact ⟨[], calls, rfl, rfl, rfl⟩
      | cons first before =>
          rw [List.cons_append, List.cons.injEq] at h
          obtain ⟨rfl, h⟩ := h
          obtain ⟨earlier, rest, rfl, rfl, hc⟩ := ih h
          exact ⟨call :: earlier, rest, rfl, rfl, hc⟩

/-- The answers to one identifier do not depend on the calls of others. -/
theorem answers_filter (x : String) {other : InMemoryFallbackRateLimiter}
    (h : self.requests x = other.requests x) :
    (answers limit window self calls).filter (fun c => decide (c.identifier = x))
      = answers limit window other (calls.filter fun call => decide (call.1 = x)) := by
  induction calls generalizing self other with
  | nil => rfl
  | cons call calls ih =>
      obtain ⟨y, t⟩ := call
      rw [answers]
      by_cases hxy : y = x
      · subst hxy
        have hsame : self.is_allowed y limit window t
            = ((other.is_allowed y limit window t).1,
              { requests := Function.update self.requests y
                  ((other.is_allowed y limit window t).2.requests y) }) := by
          rw [is_allowed_requests_self]
          simp only [is_allowed, h]
          rfl
        rw [List.filter_cons_of_pos (by simp), List.filter_cons_of_pos (by simp), answers, ih]
        · rw [hsame]
        · rw [hsame]
          exact Function.update_self ..
      · rw [List.filter_cons_of_neg (by simpa using hxy),
          List.filter_cons_of_neg (by simpa using hxy), ih]
        rw [is_allowed_requests_of_ne (Ne.symm hxy), h]

/-- The times of the earlier calls, from their answers. -/
theorem map_time_answers :
    (answers limit window self calls).map AnsweredCall.time = calls.map Prod.snd := by
  induction calls generalizing self with
  | nil => rfl
  | cons call calls ih => rw [answers, List.map_cons, List.map_cons, ih]

/-- The calls before an answer are not later than it. -/
theorem le_of_pairwise {earlier rest : List (String × ℚ)}
    (hclock : ((earlier ++ (x, now) :: rest).map Prod.snd).Pairwise (· ≤ ·)) :
    ∀ t ∈ earlier.map Prod.snd, t ≤ now := by
  intro t ht
  rw [List.map_append, List.map_cons, List.pairwise_append] at hclock
  exact hclock.2.2 t ht now List.mem_cons_self

/-- **The bound in any window**, for a limiter that may have seen calls before. Take the
last allowed call of the window. All others are in the window that ends with it, and there
it has counted fewer than `limit`. -/
theorem countP_allowed_le (hclock : (calls.map Prod.snd).Pairwise (· ≤ ·)) (x : String) (t : ℚ) :
    (answers limit window self calls).countP (fun c => decide (c.identifier = x ∧
      c.allowed = true ∧ t - window < c.time ∧ c.time ≤ t)) ≤ limit.toNat := by
  -- the log of `x` alone, which is all that its answers depend on
  have hcount : (answers limit window self calls).countP (fun c => decide (c.identifier = x ∧
        c.allowed = true ∧ t - window < c.time ∧ c.time ≤ t))
      = ((answers limit window self (calls.filter fun call => decide (call.1 = x))).map
          fun c => (c.time, c.allowed)).countP (marked_in (window : ℚ) t) := by
    rw [← answers_filter x rfl, List.countP_map, List.countP_filter]
    apply List.countP_congr
    intro c _
    simp only [marked_in, Function.comp_apply, Bool.and_eq_true, decide_eq_true_eq]
    tauto
  rw [hcount]
  apply countP_marked_le
  intro before entry after hlog hmark
  obtain ⟨front, back, hsplit, rfl, hback⟩ := List.map_eq_append_iff.mp hlog
  obtain ⟨c, later, rfl, rfl, -⟩ := List.map_eq_cons_iff.mp hback
  obtain ⟨earlier, rest, hcalls, rfl, hallowed⟩ := answers_eq_append hsplit
  have hmine : ∀ call ∈ calls.filter fun call => decide (call.1 = x), call.1 = x :=
    fun call hcall => of_decide_eq_true (List.mem_filter.mp hcall).2
  rw [hcalls] at hmine
  have hx : c.identifier = x := hmine (c.identifier, c.time) (by simp)
  have hclock' := (hclock.sublist ((List.filter_sublist (p := fun call => decide (call.1 = x))
    (l := calls)).map Prod.snd))
  rw [hcalls] at hclock'
  -- the answer has seen the earlier calls, and what the limiter held before
  have hseen := (is_allowed_after_iff (le_of_pairwise hclock')).mp (hallowed.symm.trans hmark)
  have htimes : times_of c.identifier earlier = earlier.map Prod.snd := by
    rw [times_of, List.filter_eq_self.mpr]
    intro call hcall
    rw [decide_eq_true_eq, hx]
    exact hmine call (List.mem_append_left _ hcall)
  rw [recent_append, List.length_append, htimes] at hseen
  rw [List.map_map]
  have hfst : (answers limit window self earlier).map (Prod.fst ∘ fun c => (c.time, c.allowed))
      = earlier.map Prod.snd := map_time_answers
  rw [hfst]
  push_cast at hseen
  dsimp only
  omega

/-- The earlier calls of an identifier in a window that ends now, from their
answers. -/
theorem countP_earlier (x : String) (hclock : ∀ t ∈ calls.map Prod.snd, t ≤ now) :
    (answers limit window self calls).countP (fun b => decide (b.identifier = x ∧
      now - window < b.time ∧ b.time ≤ now))
      = (recent (window : ℚ) now (times_of x calls)).length := by
  induction calls generalizing self with
  | nil => rfl
  | cons call calls ih =>
      have hle : call.2 ≤ now := hclock call.2 List.mem_cons_self
      have hrest : ∀ t ∈ calls.map Prod.snd, t ≤ now :=
        fun t ht => hclock t (List.mem_cons_of_mem _ ht)
      rw [answers, List.countP_cons, ih hrest, ← List.singleton_append, times_of_append,
        recent_append, List.length_append, Nat.add_comm]
      congr 1
      by_cases hx : call.1 = x
      · by_cases hnew : now - window < call.2
        · simp [times_of, recent, hx, hnew, hle]
        · simp [times_of, recent, hx, hnew]
      · simp [times_of, recent, hx]

end Limiter

open InMemoryFallbackRateLimiter in
/-- **The fallback limiter is a sliding window.** Whatever the calls, if the clock does
not go back: in every window at most `limit` calls of an identifier are allowed; a call is
refused exactly if `limit` earlier calls of its identifier, allowed or not, are in the
window that ends with it; and the answers to an identifier are those it would get alone.
The three parts rest on one fact, that the list of an identifier is its own log, pruned
([`requests_after`]). If the clock went back a call could be pruned and then be in the
window again. -/
theorem fallback_sliding_window (limit window : ℤ) (hlimit : 0 ≤ limit)
    (calls : List (String × ℚ)) (hclock : (calls.map Prod.snd).Pairwise (· ≤ ·)) :
    (∀ (x : String) (t : ℚ), ((answers limit window {} calls).countP (fun c =>
      decide (c.identifier = x ∧ c.allowed = true ∧ t - window < c.time ∧ c.time ≤ t)) : ℤ)
        ≤ limit) ∧
    (∀ before c after, answers limit window {} calls = before ++ c :: after →
      (c.allowed = false ↔ limit ≤ before.countP fun b => decide (b.identifier = c.identifier ∧
        c.time - window < b.time ∧ b.time ≤ c.time))) ∧
    ∀ x : String, (answers limit window {} calls).filter (fun c => decide (c.identifier = x))
      = answers limit window {} (calls.filter fun call => decide (call.1 = x)) := by
  refine ⟨?_, ?_, fun x => answers_filter x rfl⟩
  · intro x t
    rw [← Int.toNat_of_nonneg hlimit, Nat.cast_le]
    exact countP_allowed_le hclock x t
  intro before c after hsplit
  obtain ⟨earlier, rest, rfl, rfl, hallowed⟩ := answers_eq_append hsplit
  have hle := le_of_pairwise hclock
  rw [countP_earlier c.identifier hle, ← Bool.not_eq_true, hallowed, is_allowed_after_iff hle,
    List.nil_append]
  omega

open InMemoryFallbackRateLimiter in
/-- With a limit of one for a minute, the second call of `a` is refused and
counts all the same. -/
theorem fallback_sliding_window_burst :
    (answers 1 60 {} [("a", 0), ("a", 1), ("b", 1), ("a", 60), ("a", 120)]).map
        AnsweredCall.allowed = [true, false, true, false, true] ∧
      ((answers 1 60 {} [("a", 0), ("a", 1), ("b", 1), ("a", 60), ("a", 120)]).countP (fun c =>
        decide (c.identifier = "a" ∧ c.allowed = true ∧ 120 - ((60 : ℤ) : ℚ) < c.time ∧
          c.time ≤ 120)) : ℤ) ≤ 1 :=
  ⟨by decide +kernel, (fallback_sliding_window 1 60 (by decide) _ (by decide +kernel)).1 "a" 120⟩

end EventFlow
