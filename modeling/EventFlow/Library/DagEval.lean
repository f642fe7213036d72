/-
Evaluation along a topological order.

Every node of a graph has a value that depends on the values of its parents. One
pass over the nodes, parents first, computes all of them ([`evaluate`]); and an
assignment that satisfies the rule at every node is the one that the pass computes
([`evaluate_unique`]), however it has come about.
-/
import Mathlib.Logic.Function.Basic
import Mathlib.Data.List.Basic
import Mathlib.Data.List.Induction

set_option autoImplicit false

namespace DagEval

variable {α β : Type*} {parents : α → List α} {rule : α → (α → β) → β}

/-- The rule looks at nothing but the values of the parents. -/
def Local (parents : α → List α) (rule : α → (α → β) → β) : Prop :=
  ∀ n f g, (∀ p ∈ parents n, f p = g p) → rule n f = rule n g

/-- Parents come first. -/
def Ordered (parents : α → List α) (order : List α) : Prop :=
  ∀ before n after, order = before ++ n :: after → ∀ p ∈ parents n, p ∈ before

/-- A position is larger than those of the parents. -/
theorem ordered_of_idxOf [DecidableEq α] {order : List α}
    (h : ∀ n ∈ order, ∀ p ∈ parents n, order.idxOf p < order.idxOf n) :
    Ordered parents order := by
  rintro before n after rfl p hp
  have hlt := h n (List.mem_append_right _ List.mem_cons_self) p hp
  have hn : (before ++ n :: after).idxOf n ≤ before.length := by
    by_cases hmem : n ∈ before
    · rw [List.idxOf_append_of_mem hmem]
      exact List.idxOf_le_length
    · rw [List.idxOf_append_of_notMem hmem, List.idxOf_cons_self]
      exact Nat.le_refl _
  by_contra hnot
  rw [List.idxOf_append_of_notMem hnot] at hlt
  omega

/-- The beginning of an order is an order. -/
theorem Ordered.left {order rest : List α} (h : Ordered parents (order ++ rest)) :
    Ordered parents order := by
  intro before n after heq
  refine h before n (after ++ rest) ?_
  rw [heq, List.append_assoc, List.cons_append]

variable [DecidableEq α]

/-- One pass over the nodes. -/
def evaluate (rule : α → (α → β) → β) (order : List α) (f : α → β) : α → β :=
  order.foldl (fun f n => Function.update f n (rule n f)) f

theorem evaluate_concat (order : List α) (n : α) (f : α → β) :
    evaluate rule (order ++ [n]) f
      = Function.update (evaluate rule order f) n (rule n (evaluate rule order f)) :=
  List.foldl_append ..

/-- **The pass computes the only assignment that satisfies the rule.** By induction along
the order: the value of a node depends on its parents, which stand before it, and on these
the two agree. So `g` may come from anywhere, for instance from a run of a concurrent
system. -/
theorem evaluate_unique (hlocal : Local parents rule) {order : List α}
    (hordered : Ordered parents order) (f : α → β) {g : α → β}
    (hg : ∀ n ∈ order, g n = rule n g) : ∀ n ∈ order, evaluate rule order f n = g n := by
  induction order using List.reverseRecOn with
  | nil => exact fun n hn => absurd hn List.not_mem_nil
  | append_singleton order m ih =>
      have hbefore := ih hordered.left fun n hn => hg n (List.mem_append_left _ hn)
      intro n hn
      rw [evaluate_concat]
      by_cases hnm : n = m
      · subst hnm
        rw [Function.update_self, hg n hn]
        exact hlocal n _ _ fun p hp => hbefore p (hordered order n [] rfl p hp)
      · rw [Function.update_of_ne hnm]
        refine hbefore n ((List.mem_append.mp hn).resolve_right fun h => hnm ?_)
        exact List.mem_singleton.mp h

end DagEval
