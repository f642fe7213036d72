/-
Reachability through an open set, the closure a worklist computes.

A worklist that marks vertices keeps a queue `S` and a set `P` of vertices that
are still open. It takes a vertex from the queue; an open one is closed and its
successors are queued, any other one is dropped. What it closes is the set
`ReachVia R P S` of vertices that can be reached from `S` along edges of `R`
without leaving `P`. The two lemmas [`reachVia_close`] and [`reachVia_drop`]
say that one turn of the loop keeps that set, in both cases of the turn; they
hold for every relation, cyclic or not.
-/
import Mathlib.Logic.Basic
import Mathlib.Tactic.Common

set_option autoImplicit false

namespace Reach

variable {α : Type*}

/-- `x` can be reached from `S` along `R` through vertices of `P` only, both
ends included. -/
inductive ReachVia (R : α → α → Prop) (P S : α → Prop) : α → Prop
  | base {x : α} : S x → P x → ReachVia R P S x
  | step {x y : α} : ReachVia R P S x → R x y → P y → ReachVia R P S y

variable {R : α → α → Prop} {P P' S S' : α → Prop}

/-- Only open vertices are reached. -/
theorem ReachVia.isOpen {x : α} (h : ReachVia R P S x) : P x := by
  cases h with
  | base _ hP => exact hP
  | step _ _ hP => exact hP

theorem ReachVia.mono {x : α} (hP : ∀ y, P y → P' y) (hS : ∀ y, S y → S' y)
    (h : ReachVia R P S x) : ReachVia R P' S' x := by
  induction h with
  | base hs hp => exact .base (hS _ hs) (hP _ hp)
  | step _ hr hp ih => exact .step ih hr (hP _ hp)

theorem reachVia_congr {x : α} (hP : ∀ y, P y ↔ P' y) (hS : ∀ y, S y ↔ S' y) :
    ReachVia R P S x ↔ ReachVia R P' S' x :=
  ⟨ReachVia.mono (fun y => (hP y).1) (fun y => (hS y).1),
    ReachVia.mono (fun y => (hP y).2) (fun y => (hS y).2)⟩

/-- From an empty queue nothing is reached. -/
theorem not_reachVia_empty {x : α} : ¬ ReachVia R P (fun _ => False) x := by
  intro h
  induction h with
  | base hs _ => exact hs
  | step _ _ _ ih => exact ih

/-- **Closing a queued open vertex.** It is reached itself, and everything else
is reached from the rest of the queue and its successors once it is closed. A
path that visits it is cut at its last visit. -/
theorem reachVia_close {x m : α} (hP : P x) :
    ReachVia R P (fun y => y = x ∨ S y) m ↔
      m = x ∨ ReachVia R (fun y => P y ∧ y ≠ x) (fun y => S y ∨ R x y) m := by
  constructor
  · intro h
    induction h with
    | @base y hs hp =>
        by_cases hyx : y = x
        · exact .inl hyx
        · exact .inr (.base (.inl (hs.resolve_left hyx)) ⟨hp, hyx⟩)
    | @step y z _ hr hp ih =>
        by_cases hzx : z = x
        · exact .inl hzx
        · rcases ih with rfl | ih
          · exact .inr (.base (.inr hr) ⟨hp, hzx⟩)
          · exact .inr (.step ih hr ⟨hp, hzx⟩)
  · rintro (rfl | h)
    · exact .base (.inl rfl) hP
    · induction h with
      | base hs hp =>
          rcases hs with hs | hr
          · exact .base (.inr hs) hp.1
          · exact .step (.base (.inl rfl) hP) hr hp.1
      | step _ hr hp ih => exact .step ih hr hp.1

/-- **Dropping a queued vertex that is not open** changes nothing. -/
theorem reachVia_drop {x m : α} (hP : ¬ P x) :
    ReachVia R P (fun y => y = x ∨ S y) m ↔ ReachVia R P S m := by
  constructor
  · intro h
    induction h with
    | base hs hp => exact .base (hs.resolve_left fun e => hP (e ▸ hp)) hp
    | step _ hr hp ih => exact .step ih hr hp
  · exact ReachVia.mono (fun _ h => h) (fun _ h => .inr h)

/-- The last step of a path: a reached vertex is queued, or has a reached
predecessor. -/
theorem ReachVia.source {m : α} (h : ReachVia R P S m) :
    S m ∨ ∃ y, ReachVia R P S y ∧ R y m := by
  cases h with
  | base hs _ => exact .inl hs
  | step h hr _ => exact .inr ⟨_, h, hr⟩

end Reach
