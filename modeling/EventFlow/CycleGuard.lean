/-
The cycle guard of the editor and the cycle check of the server.

`createsCycle` looks for a path from the target of a new edge back to its
source, depth first and with one set of visited nodes. `validate_workflow` peels
off nodes without incoming edges. Both decide the same: the search is
reachability (`DepthFirst`), the peeling is acyclicity (`Kahn`), and one more
edge closes a cycle exactly if its target reaches its source (`EdgeGraph`).
-/
import EventFlow.Editor

set_option autoImplicit false

namespace EventFlow

open Relation

/-- The edges of the canvas as pairs of ids. -/
def flow_pairs (edges : List FlowEdge) : List (String × String) :=
  edges.map fun e => (e.source, e.target)

theorem fill_adj_eq (adj : String → List String) (edges : List FlowEdge) (x : String) :
    fill_adj adj edges x = adj x ++ Kahn.successors (flow_pairs edges) x := by
  induction edges generalizing adj with
  | nil =>
      show adj x = adj x ++ []
      rw [List.append_nil]
  | cons e rest ih =>
      rw [fill_adj, ih]
      by_cases hx : x = e.source
      · subst hx
        simp [flow_pairs, Kahn.successors]
      · have hne : ¬ e.source = x := fun h => hx h.symm
        simp [flow_pairs, Kahn.successors, Function.update_of_ne hx, hne]

/-- The record `adj` holds the successors. -/
theorem mem_fill_adj {edges : List FlowEdge} {x y : String} :
    y ∈ fill_adj (fun _ => []) edges x ↔ (x, y) ∈ flow_pairs edges := by
  rw [fill_adj_eq, List.nil_append]
  exact Kahn.mem_successors

/-- The search follows the edges. -/
theorem reflTransGen_fill_adj {edges : List FlowEdge} {x y : String} :
    ReflTransGen (fun a b => b ∈ fill_adj (fun _ => []) edges a) x y ↔
      y = x ∨ EdgeGraph.Walk (flow_pairs edges) x y := by
  rw [reflTransGen_iff_eq_or_transGen]
  simp only [mem_fill_adj]
  rfl

/-- The search ends. -/
theorem creates_cycle_total (source target : String) (all_edges : List FlowEdge) {fuel : ℕ}
    (hfuel : cycle_depth all_edges ≤ fuel) :
    ∃ answer, creates_cycle fuel source target all_edges = some answer := by
  unfold creates_cycle
  split
  · exact ⟨true, rfl⟩
  · -- only the start and targets of edges are visited
    have hclosed : ∀ x ∈ target :: all_edges.map FlowEdge.target,
        fill_adj (fun _ => []) all_edges x ⊆ target :: all_edges.map FlowEdge.target := by
      intro x _ y hy
      obtain ⟨e, he, heq⟩ := List.mem_map.mp (mem_fill_adj.mp hy)
      cases heq
      exact List.mem_cons_of_mem _ (List.mem_map_of_mem he)
    have hlt : DepthFirst.unvisited (target :: all_edges.map FlowEdge.target) [] < fuel := by
      have hle := DepthFirst.unvisited_le_length (target :: all_edges.map FlowEdge.target) []
      rw [List.length_cons, List.length_map] at hle
      unfold cycle_depth at hfuel
      omega
    obtain ⟨found, visited, hvisit, -⟩ :=
      DepthFirst.visit_total hclosed List.mem_cons_self hlt
    exact ⟨found, by rw [hvisit]; rfl⟩

/-- What it answers. -/
theorem creates_cycle_iff {fuel : ℕ} {source target : String} {all_edges : List FlowEdge}
    {answer : Bool} (h : creates_cycle fuel source target all_edges = some answer) :
    answer = true ↔ source = target ∨ EdgeGraph.Walk (flow_pairs all_edges) target source := by
  unfold creates_cycle at h
  split at h
  · rename_i heq
    cases h
    exact ⟨fun _ => Or.inl heq, fun _ => rfl⟩
  · obtain ⟨r, hvisit, hr⟩ := Option.map_eq_some_iff.mp h
    obtain ⟨found, visited⟩ := r
    cases hr
    rw [DepthFirst.visit_iff hvisit, reflTransGen_fill_adj]

/-- **The editor's cycle guard agrees with the server.** On edges without a cycle
`createsCycle` ends and answers whether the target of the new edge is, or reaches, its
source; and it answers no exactly if `validate_workflow`, on any definition with these
edges and the new one that gets as far as Kahn's loop, does not report a cycle. The search
ends on any edges, because it visits no node twice. That there is no cycle yet is needed
for the last part: then every cycle goes through the new edge, and what is left of it is a
walk from its target back to its source, which is what the search looks for. -/
theorem creates_cycle_agrees (all_edges : List FlowEdge)
    (hacyclic : EdgeGraph.Acyclic (flow_pairs all_edges)) (source target : String) :
    ∃ answer : Bool,
      (∀ fuel, cycle_depth all_edges ≤ fuel →
        creates_cycle fuel source target all_edges = some answer) ∧
      (answer = true ↔
        source = target ∨ EdgeGraph.Walk (flow_pairs all_edges) target source) ∧
      ∀ (d : WorkflowDefinition) (registry : ExecutorRegistry),
        d.edge_pairs = flow_pairs all_edges ++ [(source, target)] → Checked registry d →
        (answer = false ↔
          ¬ ∃ err, validate_workflow d registry = .error err ∧ err.code = "cycle_detected") := by
  -- the answer with the least fuel; more fuel gives it again
  obtain ⟨answer, hanswer⟩ := creates_cycle_total source target all_edges le_rfl
  have hiff := creates_cycle_iff hanswer
  refine ⟨answer, ?_, hiff, ?_⟩
  · intro fuel hfuel
    obtain ⟨answer', hanswer'⟩ := creates_cycle_total source target all_edges hfuel
    rw [hanswer', Option.some.injEq, Bool.eq_iff_iff, creates_cycle_iff hanswer', hiff]
  · intro d registry hedges hchecked
    -- both sides are about one more edge on an acyclic graph
    have hclosing : answer = false ↔ EdgeGraph.Acyclic d.edge_pairs := by
      rw [hedges, hacyclic.concat_iff, ← hiff, Bool.not_eq_true]
    rw [hclosing]
    constructor
    · rintro hacyclic' ⟨err, herr, -⟩
      rw [hchecked.validate_of_acyclic hacyclic'] at herr
      cases herr
    · intro hno
      by_contra hcycle
      obtain ⟨message, herr⟩ := hchecked.validate_of_cycle hcycle
      exact hno ⟨_, herr, rfl⟩

/-- Two nodes and an edge each way. -/
def back_edge_definition : WorkflowDefinition where
  name := "back"
  nodes := [{ id := "up", type := "leg" }, { id := "down", type := "leg" }]
  edges := [{ from_node := "up", to_node := "down" }, { from_node := "down", to_node := "up" }]

/-- The first of them on the canvas. -/
def up_edges : List FlowEdge := [{ id := "up-down", source := "up", target := "down" }]

theorem creates_cycle_agrees_back_edge :
    ∃ answer : Bool,
      creates_cycle 3 "down" "up" up_edges = some answer ∧
      answer = true ∧
      (answer = false ↔ ¬ ∃ err, validate_workflow back_edge_definition
        (fun _ => some ⟨fun _ => .ok ()⟩) = .error err ∧ err.code = "cycle_detected") := by
  have hacyclic : EdgeGraph.Acyclic (flow_pairs up_edges) := by
    apply EdgeGraph.acyclic_of_rank fun x => if x = "down" then 1 else 0
    intro e he
    cases List.mem_singleton.mp he
    decide
  have hchecked : Checked (fun _ => some ⟨fun _ => .ok ()⟩) back_edge_definition :=
    { nodup := by decide
      nodes := fun node _ => ⟨⟨fun _ => .ok ()⟩, rfl, rfl⟩
      edges := by decide }
  obtain ⟨answer, hruns, hiff, hserver⟩ := creates_cycle_agrees _ hacyclic "down" "up"
  refine ⟨answer, hruns 3 (le_refl 3), ?_, hserver _ _ rfl hchecked⟩
  rw [hiff]
  exact Or.inr (EdgeGraph.Walk.single List.mem_cons_self)

end EventFlow
