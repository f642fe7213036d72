/-
Sliding windows over a log of times.

A log that is pruned at every entry ([`keep`]) and a log that keeps everything
cannot be told apart by a reader who only looks at the last `window`
([`recent_keep`]). If an entry is marked only while at most `limit` entries,
itself included, are in its own window, then at most `limit` marked entries lie
in any window, wherever it ends ([`countP_marked_le`]).
-/
import Mathlib.Algebra.Order.Group.Basic
import Mathlib.Data.List.Induction

set_option autoImplicit false

namespace SlidingWindow

variable {τ : Type*} [AddCommGroup τ] [LinearOrder τ]

/-! ## Pruning -/

/-- The entries that are younger than `window` at `now`. -/
def recent (window now : τ) (times : List τ) : List τ :=
  times.filter fun t => decide (now - window < t)

/-- The log that starts as `kept`, with one pruning at each entry of `times`. -/
def keep (window : τ) (kept times : List τ) : List τ :=
  times.foldl (fun kept t => recent window t kept ++ [t]) kept

section Prune

variable {window now later : τ}

theorem recent_append (xs ys : List τ) :
    recent window now (xs ++ ys) = recent window now xs ++ recent window now ys :=
  List.filter_append ..

theorem keep_concat (kept times : List τ) (t : τ) :
    keep window kept (times ++ [t]) = recent window t (keep window kept times) ++ [t] := by
  rw [keep, List.foldl_append]
  rfl

variable [IsOrderedAddMonoid τ]

/-- What is pruned now would be pruned later anyway. -/
theorem recent_recent (h : now ≤ later) (times : List τ) :
    recent window later (recent window now times) = recent window later times := by
  unfold recent
  rw [List.filter_filter]
  apply List.filter_congr
  intro t _
  rw [← Bool.decide_and, decide_eq_decide]
  constructor
  · exact fun ht => ht.1
  · exact fun ht => ⟨ht, (sub_le_sub_right h window).trans_lt ht⟩

/-- **Pruning loses nothing** that a later window could still see. -/
theorem recent_keep {kept times : List τ} (h : ∀ t ∈ times, t ≤ now) :
    recent window now (keep window kept times) = recent window now (kept ++ times) := by
  induction times using List.reverseRecOn with
  | nil => rw [List.append_nil, keep, List.foldl_nil]
  | append_singleton times t ih =>
      have hrest : ∀ u ∈ times, u ≤ now := fun u hu => h u (List.mem_append_left _ hu)
      have hle : t ≤ now := h t (List.mem_append_right _ List.mem_cons_self)
      rw [keep_concat, recent_append, recent_recent hle, ih hrest, ← recent_append,
        List.append_assoc]

end Prune

/-! ## Any window -/

/-- Marked entries of the half-open window that ends at `t`. -/
def marked_in (window t : τ) (entry : τ × Bool) : Bool :=
  entry.2 && decide (t - window < entry.1 ∧ entry.1 ≤ t)

/-- **At most `limit` marked entries in any window**, if that is what every
marked entry found in its own. -/
theorem countP_marked_le [IsOrderedAddMonoid τ] {window : τ} {limit : ℤ} (log : List (τ × Bool))
    (hlog : ∀ before entry after, log = before ++ entry :: after → entry.2 = true →
      ((recent window entry.1 (before.map Prod.fst)).length : ℤ) + 1 ≤ limit) (t : τ) :
    log.countP (marked_in window t) ≤ limit.toNat := by
  induction log using List.reverseRecOn with
  | nil =>
      rw [List.countP_nil]
      exact Nat.zero_le _
  | append_singleton log entry ih =>
      rw [List.countP_append, List.countP_singleton]
      by_cases hin : marked_in window t entry = true
      · -- the last marked entry of the window has seen all others
        rw [if_pos hin]
        rw [marked_in, Bool.and_eq_true, decide_eq_true_eq] at hin
        have hown := hlog log entry [] rfl hin.1
        have hseen : log.countP (marked_in window t)
            ≤ (recent window entry.1 (log.map Prod.fst)).length := by
          rw [recent, ← List.countP_eq_length_filter, List.countP_map]
          apply List.countP_mono_left
          intro other _ hother
          rw [marked_in, Bool.and_eq_true, decide_eq_true_eq] at hother
          rw [Function.comp_apply, decide_eq_true_eq]
          exact (sub_le_sub_right hin.2.2 window).trans_lt hother.2.1
        omega
      · rw [if_neg hin, Nat.add_zero]
        apply ih
        intro before other after heq
        apply hlog before other (after ++ [entry])
        rw [heq, List.append_assoc, List.cons_append]

end SlidingWindow
