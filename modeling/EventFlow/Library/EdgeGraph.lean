/-
Directed graphs given by a list of edges.

An edge is a pair of vertices; vertices are what an arbitrary type has, repeated
edges and loops are allowed. A walk has at least one edge, so a graph is acyclic
if no vertex walks to itself.

The two results that the development uses are that a finite set of vertices of
an acyclic graph has one without a predecessor in the set
([`Acyclic.exists_source`]), and when one more edge closes a cycle
([`Acyclic.concat_iff`]).
-/
import Mathlib.Logic.Relation
import Mathlib.Order.WellFoundedSet

set_option autoImplicit false

namespace EdgeGraph

open Relation

variable {α : Type*}

/-- A walk of at least one edge. -/
def Walk (E : List (α × α)) : α → α → Prop := TransGen fun x y => (x, y) ∈ E

/-- No vertex walks to itself. -/
def Acyclic (E : List (α × α)) : Prop := ∀ x, ¬ Walk E x x

variable {E F : List (α × α)} {x y z : α}

theorem Walk.single (h : (x, y) ∈ E) : Walk E x y := TransGen.single h

theorem Walk.trans (h₁ : Walk E x y) (h₂ : Walk E y z) : Walk E x z := TransGen.trans h₁ h₂

theorem Walk.mono (hE : E ⊆ F) (h : Walk E x y) : Walk F x y :=
  TransGen.mono (fun _ _ (he : (_, _) ∈ E) => hE he) _ _ h

theorem Acyclic.anti (hE : E ⊆ F) (h : Acyclic F) : Acyclic E := by
  intro x hx
  exact h x (hx.mono hE)

/-- A walk leaves its start by an edge. -/
theorem Walk.exists_edge (h : Walk E x y) : ∃ z, (x, z) ∈ E := by
  obtain ⟨z, hz, -⟩ := TransGen.head'_iff.mp h
  exact ⟨z, hz⟩

/-- A walk goes up in a rank that every edge increases. -/
theorem Walk.rank_lt {rank : α → ℕ} (hrank : ∀ e ∈ E, rank e.1 < rank e.2) (h : Walk E x y) :
    rank x < rank y := by
  induction h with
  | single he => exact hrank _ he
  | tail _ he ih => exact ih.trans (hrank _ he)

theorem acyclic_of_rank (rank : α → ℕ) (hrank : ∀ e ∈ E, rank e.1 < rank e.2) : Acyclic E := by
  intro x hx
  exact lt_irrefl _ (hx.rank_lt hrank)

/-- **Sources.** Among finitely many vertices of an acyclic graph one has no predecessor.
Walking is a strict order on them, and a finite set has a minimal element. -/
theorem Acyclic.exists_source (h : Acyclic E) {S : List α} (hS : S ≠ []) :
    ∃ x ∈ S, ∀ y ∈ S, (y, x) ∉ E := by
  have : IsStrictOrder α (Walk E) :=
    { irrefl := h
      trans := fun _ _ _ h₁ h₂ => h₁.trans h₂ }
  have hfinite : { x | x ∈ S }.Finite := List.finite_toSet S
  have hwf : { x | x ∈ S }.WellFoundedOn (Walk E) := hfinite.wellFoundedOn
  obtain ⟨z, hz⟩ := List.exists_mem_of_ne_nil S hS
  obtain ⟨x, -, hmin⟩ := WellFounded.has_min hwf Set.univ ⟨⟨z, hz⟩, trivial⟩
  refine ⟨x.1, x.2, ?_⟩
  intro y hy hedge
  exact hmin ⟨y, hy⟩ trivial (Walk.single hedge)

/-- A walk with one more edge at hand either does without it, or comes to the
edge and goes on from it. -/
theorem Walk.concat_cases {s t : α} (h : Walk (E ++ [(s, t)]) x y) :
    Walk E x y ∨ (x = s ∨ Walk E x s) ∧ (t = y ∨ Walk E t y) := by
  induction h with
  | single he =>
      rcases List.mem_append.mp he with hold | hnew
      · exact Or.inl (Walk.single hold)
      · cases List.mem_singleton.mp hnew
        exact Or.inr ⟨Or.inl rfl, Or.inl rfl⟩
  | tail _ he ih =>
      rcases List.mem_append.mp he with hold | hnew
      · rcases ih with hwalk | ⟨hto, rfl | hfrom⟩
        · exact Or.inl (hwalk.trans (Walk.single hold))
        · exact Or.inr ⟨hto, Or.inr (Walk.single hold)⟩
        · exact Or.inr ⟨hto, Or.inr (hfrom.trans (Walk.single hold))⟩
      · cases List.mem_singleton.mp hnew
        rcases ih with hwalk | ⟨hto, -⟩
        · exact Or.inr ⟨Or.inr hwalk, Or.inl rfl⟩
        · exact Or.inr ⟨hto, Or.inl rfl⟩

/-- **One more edge.** It closes a cycle if it is a loop or if its target walks back to
its source. A walk from a vertex to itself either does not use the new edge, or it can be
cut open there, and what is left leads from the target to the source. -/
theorem Acyclic.concat_iff (h : Acyclic E) {s t : α} :
    Acyclic (E ++ [(s, t)]) ↔ ¬ (s = t ∨ Walk E t s) := by
  have hnew : (s, t) ∈ E ++ [(s, t)] := List.mem_append_right _ (List.mem_singleton_self _)
  constructor
  · rintro hacyclic (rfl | hback)
    · exact hacyclic s (Walk.single hnew)
    · exact hacyclic s ((Walk.single hnew).trans (hback.mono (List.subset_append_left _ _)))
  · intro hno x hx
    apply hno
    rcases hx.concat_cases with hwalk | ⟨hto, hfrom⟩
    · exact absurd hwalk (h x)
    · rcases hto with rfl | hto
      · exact hfrom.imp_left Eq.symm
      · rcases hfrom with rfl | hfrom
        · exact Or.inr hto
        · exact Or.inr (hfrom.trans hto)

end EdgeGraph
