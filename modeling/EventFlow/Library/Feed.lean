/-
Slices of an append-only log.

A subscriber that joins a log at position `a` and has been served up to position
`b` should have received the messages between the two that are on its topic, in
order: [`feed`]. The lemmas say how a feed grows: by nothing when the log grows
behind it, by at most one message when it is served the next position, and by
concatenation.
-/
import Mathlib.Data.List.Basic

set_option autoImplicit false

namespace Feed

variable {μ : Type*} {p : μ → Bool} {log more : List μ} {m : μ} {a b c : Nat}

/-- The messages on a topic between two positions of a log. The first position belongs to
it, the second does not. -/
def feed (p : μ → Bool) (log : List μ) (a b : Nat) : List μ :=
  ((log.take b).drop a).filter p

theorem mem_feed (h : m ∈ feed p log a b) : p m = true :=
  (List.mem_filter.mp h).2

@[simp] theorem feed_self (p : μ → Bool) (log : List μ) (a : Nat) : feed p log a a = [] := by
  have hnil : (log.take a).drop a = [] := by
    rw [List.drop_eq_nil_iff, List.length_take]
    exact Nat.min_le_left _ _
  rw [feed, hnil, List.filter_nil]

/-- What is appended behind the served position does not show. So a feed up to a position
is known when the position is reached. -/
theorem feed_append (h : b ≤ log.length) : feed p (log ++ more) a b = feed p log a b := by
  rw [feed, feed, List.take_append_of_le_length h]

/-- **Serving one position.** -/
theorem feed_succ (hab : a ≤ b) (hm : log[b]? = some m) :
    feed p log a (b + 1) = feed p log a b ++ if p m then [m] else [] := by
  have hb : b < log.length := (List.getElem?_eq_some_iff.mp hm).choose
  have hlen : a ≤ (log.take b).length := by
    rw [List.length_take]
    omega
  unfold feed
  rw [List.take_add_one, hm, List.drop_append_of_le_length hlen, List.filter_append]
  simp only [Option.toList_some, List.filter_cons, List.filter_nil]

/-- A feed is served piece by piece. -/
theorem feed_trans (hab : a ≤ b) (hbc : b ≤ c) (hc : c ≤ log.length) :
    feed p log a c = feed p log a b ++ feed p log b c := by
  induction hbc with
  | refl => rw [feed_self, List.append_nil]
  | @step c hbc ih =>
      obtain ⟨m, hm⟩ : ∃ m, log[c]? = some m := ⟨_, List.getElem?_eq_getElem hc⟩
      rw [feed_succ (Nat.le_trans hab hbc) hm, feed_succ hbc hm, ih (Nat.le_of_succ_le hc),
        List.append_assoc]

end Feed
