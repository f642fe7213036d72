/-
Depth-first search for a vertex, with a set of visited vertices that all
branches share.

A visit of the goal ends the search. A visit of a visited vertex comes back
empty-handed, any other vertex is marked and its neighbours are visited in
order, until one of them ends the search. The recursion is bounded by a fuel
argument and `none` is that it ran out; nothing bounds the search itself, so
what has to be shown is that some fuel is enough, and that with any fuel that is
the answer is reachability of the goal.

A search that comes back empty-handed has marked a set that holds the start, not
the goal, and with a vertex all its neighbours ([`visit_false`]): the goal is
not reached from there. That the visited set is shared is no obstacle, since the
set is closed only in the end and only as a whole.
-/
import Mathlib.Logic.Relation
import Mathlib.Data.Finset.Card
import Mathlib.Data.Finset.SDiff
import Mathlib.Data.List.Basic

set_option autoImplicit false

namespace DepthFirst

open Relation

variable {α : Type*}

section Explored

variable {adj : α → List α} {goal : α}

/-- What a search without success has added to the visited vertices: no goal,
and with each vertex its neighbours. -/
structure Explored (adj : α → List α) (goal : α) (visited visited' : List α) : Prop where
  subset : visited ⊆ visited'
  added : ∀ x ∈ visited', x ∈ visited ∨ x ≠ goal ∧ adj x ⊆ visited'

theorem Explored.refl (visited : List α) : Explored adj goal visited visited :=
  ⟨fun _ h => h, fun _ h => Or.inl h⟩

theorem Explored.trans {v₁ v₂ v₃ : List α} (h₁ : Explored adj goal v₁ v₂)
    (h₂ : Explored adj goal v₂ v₃) : Explored adj goal v₁ v₃ := by
  refine ⟨List.Subset.trans h₁.subset h₂.subset, ?_⟩
  intro x hx
  rcases h₂.added x hx with hx | hx
  · exact (h₁.added x hx).imp_right fun h => ⟨h.1, List.Subset.trans h.2 h₂.subset⟩
  · exact Or.inr hx

end Explored

variable [DecidableEq α]

/-- Visit the neighbours in order. -/
def visit_all (visit : α → List α → Option (Bool × List α)) :
    List α → List α → Option (Bool × List α)
  | [], visited => some (false, visited)
  | n :: rest, visited =>
    match visit n visited with
    | none => none
    | some (true, visited) => some (true, visited)
    | some (false, visited) => visit_all visit rest visited

/-- Visit a vertex: whether the goal was found, and what is visited then. -/
def visit (adj : α → List α) (goal : α) : ℕ → α → List α → Option (Bool × List α)
  | 0, _, _ => none
  | fuel + 1, x, visited =>
    if x = goal then some (true, visited)
    else if x ∈ visited then some (false, visited)
    else visit_all (visit adj goal fuel) (adj x) (x :: visited)

variable {adj : α → List α} {goal : α}

/-! ## The answer -/

/-- A search that ends at the goal has followed edges to it. The set of visited vertices
plays no part here: whatever has been skipped, the way that was found is a way. -/
theorem visit_true {fuel : ℕ} {x : α} {visited visited' : List α}
    (h : visit adj goal fuel x visited = some (true, visited')) :
    ReflTransGen (fun a b => b ∈ adj a) x goal := by
  induction fuel generalizing x visited visited' with
  | zero => cases h
  | succ fuel ih =>
      unfold visit at h
      split at h
      · rename_i hgoal
        rw [hgoal]
      · split at h
        · cases h
        · -- one of the neighbours has ended the search
          have hall : ∀ ns visited, visit_all (visit adj goal fuel) ns visited
              = some (true, visited') → ∃ n ∈ ns, ReflTransGen (fun a b => b ∈ adj a) n goal := by
            intro ns
            induction ns with
            | nil =>
                intro visited h
                cases h
            | cons n ns ihns =>
                intro visited h
                unfold visit_all at h
                split at h
                · cases h
                · rename_i v hvisit
                  exact ⟨n, List.mem_cons_self, ih hvisit⟩
                · obtain ⟨m, hm, hreach⟩ := ihns _ h
                  exact ⟨m, List.mem_cons_of_mem _ hm, hreach⟩
          obtain ⟨n, hn, hreach⟩ := hall _ _ h
          exact ReflTransGen.head hn hreach

/-- **A search without success** has visited its start. -/
theorem visit_false {fuel : ℕ} {x : α} {visited visited' : List α}
    (h : visit adj goal fuel x visited = some (false, visited')) :
    x ∈ visited' ∧ Explored adj goal visited visited' := by
  induction fuel generalizing x visited visited' with
  | zero => cases h
  | succ fuel ih =>
      unfold visit at h
      split at h
      · cases h
      · rename_i hgoal
        split at h
        · rename_i hmem
          cases h
          exact ⟨hmem, .refl visited⟩
        · -- the neighbours one after the other, each with what the ones before have marked
          have hall : ∀ ns visited visited', visit_all (visit adj goal fuel) ns visited
              = some (false, visited') → ns ⊆ visited' ∧ Explored adj goal visited visited' := by
            intro ns
            induction ns with
            | nil =>
                intro visited visited' h
                cases h
                exact ⟨List.nil_subset _, .refl visited⟩
            | cons n ns ihns =>
                intro visited visited' h
                unfold visit_all at h
                split at h
                · cases h
                · cases h
                · rename_i v hvisit
                  obtain ⟨hn, hexplored⟩ := ih hvisit
                  obtain ⟨hns, hrest⟩ := ihns _ _ h
                  refine ⟨?_, hexplored.trans hrest⟩
                  exact List.cons_subset.mpr ⟨hrest.subset hn, hns⟩
          obtain ⟨hns, hexplored⟩ := hall _ _ _ h
          have hx : x ∈ visited' := hexplored.subset List.mem_cons_self
          refine ⟨hx, fun y hy => hexplored.subset (List.mem_cons_of_mem _ hy), ?_⟩
          intro y hy
          -- the vertex itself has been marked first, and its neighbours are all visited now
          rcases hexplored.added y hy with hmem | hadded
          · rcases List.mem_cons.mp hmem with rfl | hmem
            · exact Or.inr ⟨hgoal, hns⟩
            · exact Or.inl hmem
          · exact Or.inr hadded

/-- **The answer is reachability.** To the right it is the way that was found; to the left
the visited set is closed and does not contain the goal, so nothing in it reaches the
goal. -/
theorem visit_iff {fuel : ℕ} {x : α} {found : Bool} {visited : List α}
    (h : visit adj goal fuel x [] = some (found, visited)) :
    found = true ↔ ReflTransGen (fun a b => b ∈ adj a) x goal := by
  cases found with
  | true => exact ⟨fun _ => visit_true h, fun _ => rfl⟩
  | false =>
      obtain ⟨hx, hexplored⟩ := visit_false h
      have hclosed : ∀ y ∈ visited, y ≠ goal ∧ adj y ⊆ visited := by
        intro y hy
        exact (hexplored.added y hy).resolve_left List.not_mem_nil
      constructor
      · intro h
        cases h
      · intro hreach
        -- a path stays in what is visited, and the goal is not there
        have hstays : ∀ y, ReflTransGen (fun a b => b ∈ adj a) x y → y ∈ visited := by
          intro y hy
          induction hy with
          | refl => exact hx
          | tail _ hedge ih => exact (hclosed _ ih).2 hedge
        exact absurd rfl (hclosed goal (hstays goal hreach)).1

/-! ## The fuel -/

/-- How many vertices of `U` are not visited. -/
def unvisited (U visited : List α) : ℕ := (U.toFinset \ visited.toFinset).card

theorem unvisited_le_length (U visited : List α) : unvisited U visited ≤ U.length :=
  (Finset.card_le_card Finset.sdiff_subset).trans (List.toFinset_card_le U)

theorem unvisited_le {U v₁ v₂ : List α} (h : v₁ ⊆ v₂) : unvisited U v₂ ≤ unvisited U v₁ := by
  apply Finset.card_le_card
  apply Finset.sdiff_subset_sdiff subset_rfl
  intro x hx
  rw [List.mem_toFinset] at hx ⊢
  exact h hx

theorem unvisited_lt {U visited : List α} {x : α} (hx : x ∈ U) (hnew : x ∉ visited) :
    unvisited U (x :: visited) < unvisited U visited := by
  apply Finset.card_lt_card
  rw [List.toFinset_cons, Finset.sdiff_insert]
  apply Finset.erase_ssubset
  rw [Finset.mem_sdiff, List.mem_toFinset, List.mem_toFinset]
  exact ⟨hx, hnew⟩

/-- **Enough fuel.** Each visit on the stack but the last has marked a vertex, so
one more than there are vertices to mark is enough. -/
theorem visit_total {U : List α} (hU : ∀ x ∈ U, adj x ⊆ U) {fuel : ℕ} {x : α}
    {visited : List α} (hx : x ∈ U) (hfuel : unvisited U visited < fuel) :
    ∃ found visited', visit adj goal fuel x visited = some (found, visited') ∧
      visited ⊆ visited' := by
  induction fuel generalizing x visited with
  | zero => omega
  | succ fuel ih =>
      unfold visit
      split
      · exact ⟨true, visited, rfl, fun _ h => h⟩
      · split
        · exact ⟨false, visited, rfl, fun _ h => h⟩
        · rename_i hnew
          have hall : ∀ ns visited, ns ⊆ U → unvisited U visited < fuel →
              ∃ found visited', visit_all (visit adj goal fuel) ns visited
                = some (found, visited') ∧ visited ⊆ visited' := by
            intro ns
            induction ns with
            | nil =>
                intro visited _ _
                exact ⟨false, visited, rfl, fun _ h => h⟩
            | cons n ns ihns =>
                intro visited hns hlt
                obtain ⟨hn, hns⟩ := List.cons_subset.mp hns
                obtain ⟨found, v, hvisit, hsub⟩ := ih hn hlt
                unfold visit_all
                rw [hvisit]
                cases found with
                | true => exact ⟨true, v, rfl, hsub⟩
                | false =>
                    obtain ⟨found, v', hrest, hsub'⟩ :=
                      ihns v hns (lt_of_le_of_lt (unvisited_le hsub) hlt)
                    exact ⟨found, v', hrest, List.Subset.trans hsub hsub'⟩
          have hlt := unvisited_lt hx hnew
          obtain ⟨found, v, hrun, hsub⟩ := hall (adj x) (x :: visited) (hU x hx) (by omega)
          exact ⟨found, v, hrun, fun y hy => hsub (List.mem_cons_of_mem _ hy)⟩

end DepthFirst
