/-
`services/dag_validator.py`: the check a definition has to pass before it is
stored, and again when it is started.

`validate_workflow` is the Python function statement by statement. Its three
loops are `check_nodes` (duplicate ids, unknown executor types, executor
configs), `add_edges` (dangling edges; it also builds the adjacency lists and
the in-degrees) and Kahn's loop, which is `Kahn.sort` of the library at
`String`. A registry is what `ExecutorRegistry.get` can see of it: a partial
map from type names to executors, of which validation only uses
`validate_config`.

A definition is [`Checked`] if the first two loops pass; what is left is whether
it has a cycle, and the two together are exactly what is accepted
([`validate_workflow_ok_iff`], [`validate_workflow_exact`]).
[`validate_workflow_spec`] is what the rest of the development takes from an
accepted definition: distinct ids, no dangling edge, a rank that every edge
increases, known executor types, and the nodes without parents as roots.
-/
import EventFlow.Schema

set_option autoImplicit false

namespace EventFlow

/-! ## The registry -/

/-- What validation uses of an executor. -/
structure Executor where
  validate_config : JsonObject → Except AppError Unit

/-- `ExecutorRegistry._executors`. -/
abbrev ExecutorRegistry := String → Option Executor

/-- `ExecutorRegistry.get`. -/
def ExecutorRegistry.get (registry : ExecutorRegistry) (executor_type : String) :
    Except AppError Executor :=
  match registry executor_type with
  | some executor => .ok executor
  | none => .error
      { message := s!"Unknown executor type: {executor_type}", code := "unknown_executor_type" }

/-! ## `validate_workflow` -/

/-- `ValidationResult`. -/
structure ValidationResult where
  valid : Bool
  root_nodes : List String
  topological_order : List String
deriving DecidableEq, Repr

/-- The loop over `workflow.nodes`; `seen` holds the keys of `nodes_by_id`. -/
def check_nodes (registry : ExecutorRegistry) : List String → List Node → Except AppError Unit
  | _, [] => .ok ()
  | seen, node :: rest =>
    if node.id ∈ seen then
      .error { message := s!"Duplicate node ID detected: '{node.id}'",
               code := "duplicate_node_id" }
    else
      match registry.get node.type with
      | .error _ => .error
          { message := s!"Unknown executor type '{node.type}' for node '{node.id}'",
            code := "unknown_executor_type" }
      | .ok executor =>
        match executor.validate_config node.config with
        | .error e => .error
            { message := s!"Invalid config for node '{node.id}': {e.message}",
              code := "invalid_executor_config" }
        | .ok _ => check_nodes registry (node.id :: seen) rest

/-- The adjacency lists and in-degrees. -/
structure EdgeTables where
  adj : String → List String
  in_degree : String → ℤ

/-- `adj[e.from_node].append(e.to_node)` and `in_degree[e.to_node] += 1`. -/
def EdgeTables.add (g : EdgeTables) (e : Edge) : EdgeTables where
  adj := Function.update g.adj e.from_node (g.adj e.from_node ++ [e.to_node])
  in_degree := Function.update g.in_degree e.to_node (g.in_degree e.to_node + 1)

/-- The loop over `workflow.edges`; `ids` holds the keys of `nodes_by_id`. -/
def add_edges (ids : List String) : EdgeTables → List Edge → Except AppError EdgeTables
  | g, [] => .ok g
  | g, e :: rest =>
    if e.from_node ∉ ids then
      .error { message := s!"Edge refers to missing source node: '{e.from_node}'",
               code := "missing_edge_reference" }
    else if e.to_node ∉ ids then
      .error { message := s!"Edge refers to missing target node: '{e.to_node}'",
               code := "missing_edge_reference" }
    else add_edges ids (g.add e) rest

/-- `validate_workflow`. -/
def validate_workflow (workflow : WorkflowDefinition) (registry : ExecutorRegistry) :
    Except AppError ValidationResult := do
  check_nodes registry [] workflow.nodes
  let g ← add_edges workflow.node_ids ⟨fun _ => [], fun _ => 0⟩ workflow.edges
  let root_nodes := workflow.node_ids.filter fun n => decide (g.in_degree n = 0)
  if root_nodes = [] ∧ workflow.nodes ≠ [] then
    throw { message := "Workflow contains a cycle and has no root nodes.",
            code := "cycle_detected" }
  let topological_order :=
    Kahn.sort g.adj workflow.nodes.length root_nodes g.in_degree []
  if topological_order.length ≠ workflow.nodes.length then
    throw { message := "Workflow contains a cycle.", code := "cycle_detected" }
  return { valid := true, root_nodes, topological_order }

/-! ## The three loops -/

/-- The type of the node is registered, and its config validates. -/
def NodeValid (registry : ExecutorRegistry) (node : Node) : Prop :=
  ∃ executor, registry.get node.type = .ok executor ∧
    executor.validate_config node.config = .ok ()

/-- `check_nodes` passes exactly on new, pairwise distinct ids of valid nodes. The loop
looks at each id once, against the ids before it. -/
theorem check_nodes_ok_iff {registry : ExecutorRegistry} {nodes : List Node}
    {seen : List String} :
    check_nodes registry seen nodes = .ok () ↔
      (nodes.map Node.id).Nodup ∧ (∀ node ∈ nodes, node.id ∉ seen) ∧
        ∀ node ∈ nodes, NodeValid registry node := by
  -- over the nodes, with the ids that the loop has seen
  induction nodes generalizing seen with
  | nil => simp [check_nodes]
  | cons node rest ih =>
      have hsplit : (∀ other ∈ rest, other.id ∉ node.id :: seen) ↔
          node.id ∉ rest.map Node.id ∧ ∀ other ∈ rest, other.id ∉ seen := by
        -- the loop checks a new id against those before it, `Nodup` against those after it
        simp only [List.mem_cons, not_or, List.mem_map, not_exists, not_and]
        exact ⟨fun h => ⟨fun other ho => (h other ho).1, fun other ho => (h other ho).2⟩,
          fun h other ho => ⟨h.1 other ho, h.2 other ho⟩⟩
      rw [List.map_cons, List.nodup_cons, List.forall_mem_cons, List.forall_mem_cons]
      unfold check_nodes
      split
      · rename_i hseen
        constructor
        · intro h
          cases h
        · intro h
          exact absurd hseen h.2.1.1
      · rename_i hnew
        split
        · rename_i err hget
          constructor
          · intro h
            cases h
          · rintro ⟨-, -, ⟨executor, hok, -⟩, -⟩
            rw [hget] at hok
            cases hok
        · rename_i executor hget
          split
          · rename_i err hconfig
            constructor
            · intro h
              cases h
            · rintro ⟨-, -, ⟨executor', hok, hvalid⟩, -⟩
              rw [hget] at hok
              cases hok
              rw [hconfig] at hvalid
              cases hvalid
          · rename_i hconfig
            rw [ih, hsplit]
            constructor
            · rintro ⟨hnodup, ⟨hnot, hseen⟩, hvalid⟩
              exact ⟨⟨hnot, hnodup⟩, ⟨hnew, hseen⟩, ⟨executor, hget, hconfig⟩, hvalid⟩
            · rintro ⟨⟨hnot, hnodup⟩, ⟨-, hseen⟩, -, hvalid⟩
              exact ⟨hnodup, ⟨hnot, hseen⟩, hvalid⟩

/-- The node loop does not look at the edges. -/
theorem check_nodes_error {registry : ExecutorRegistry} {nodes : List Node}
    {seen : List String} {err : AppError} (h : check_nodes registry seen nodes = .error err) :
    err.code ≠ "cycle_detected" := by
  induction nodes generalizing seen with
  | nil => cases h
  | cons node rest ih =>
      unfold check_nodes at h
      split at h
      · cases h
        show "duplicate_node_id" ≠ "cycle_detected"
        decide
      · split at h
        · cases h
          show "unknown_executor_type" ≠ "cycle_detected"
          decide
        · split at h
          · cases h
            show "invalid_executor_config" ≠ "cycle_detected"
            decide
          · exact ih h

/-- The tables after the edge loop, in terms of the whole edge list: `adj` lists the
successors of a node in the order of the edges, `in_degree` counts the edges that enter
it. And no edge dangles, since the loop raises at the first that does. -/
theorem add_edges_ok {ids : List String} {edges : List Edge} {g g' : EdgeTables}
    (h : add_edges ids g edges = .ok g') :
    (∀ e ∈ edges, e.from_node ∈ ids ∧ e.to_node ∈ ids) ∧
      (∀ x, g'.adj x
        = g.adj x ++ Kahn.successors (edges.map fun e => (e.from_node, e.to_node)) x) ∧
      ∀ x, g'.in_degree x
        = g.in_degree x + Kahn.pending (edges.map fun e => (e.from_node, e.to_node)) [] x := by
  -- over the edges, with the tables that the loop has filled
  induction edges generalizing g with
  | nil =>
      cases h
      simp [Kahn.successors, Kahn.pending]
  | cons e rest ih =>
      simp only [add_edges] at h
      split at h
      · cases h
      · rename_i hfrom
        split at h
        · cases h
        · rename_i hto
          obtain ⟨hends, hadj, hdeg⟩ := ih h
          refine ⟨?_, ?_, ?_⟩
          · intro e' he'
            rcases List.mem_cons.mp he' with rfl | he'
            · exact ⟨not_not.mp hfrom, not_not.mp hto⟩
            · exact hends e' he'
          · intro x
            rw [hadj x]
            by_cases hx : x = e.from_node
            · subst hx
              simp [EdgeTables.add, Kahn.successors]
            · have hx' : ¬ e.from_node = x := fun h => hx h.symm
              simp [EdgeTables.add, Kahn.successors, Function.update_of_ne hx, hx']
          · intro x
            rw [hdeg x]
            by_cases hx : x = e.to_node
            · subst hx
              simp only [EdgeTables.add, Function.update_self, Kahn.pending, List.map_cons,
                List.countP_cons, List.not_mem_nil, not_false_eq_true, and_true,
                decide_true, if_true]
              push_cast
              ring
            · have hx' : ¬ e.to_node = x := fun h => hx h.symm
              simp only [EdgeTables.add, Function.update_of_ne hx, Kahn.pending, List.map_cons,
                List.countP_cons, hx', false_and, decide_false, Bool.false_eq_true, if_false,
                add_zero]

/-- The edge loop passes if no edge dangles. -/
theorem add_edges_of_ends {ids : List String} {edges : List Edge} (g : EdgeTables)
    (h : ∀ e ∈ edges, e.from_node ∈ ids ∧ e.to_node ∈ ids) :
    ∃ g', add_edges ids g edges = .ok g' := by
  induction edges generalizing g with
  | nil => exact ⟨g, rfl⟩
  | cons e rest ih =>
      obtain ⟨⟨hfrom, hto⟩, hrest⟩ := List.forall_mem_cons.mp h
      unfold add_edges
      rw [if_neg (not_not.mpr hfrom), if_neg (not_not.mpr hto)]
      exact ih (g.add e) hrest

theorem add_edges_error {ids : List String} {edges : List Edge} {g : EdgeTables}
    {err : AppError} (h : add_edges ids g edges = .error err) :
    err.code ≠ "cycle_detected" := by
  induction edges generalizing g with
  | nil => cases h
  | cons e rest ih =>
      unfold add_edges at h
      split at h
      · cases h
        show "missing_edge_reference" ≠ "cycle_detected"
        decide
      · split at h
        · cases h
          show "missing_edge_reference" ≠ "cycle_detected"
          decide
        · exact ih h

/-! ## The check as a whole -/

/-- All that is asked of a definition besides having no cycle. -/
structure Checked (registry : ExecutorRegistry) (d : WorkflowDefinition) : Prop where
  nodup : d.node_ids.Nodup
  nodes : ∀ node ∈ d.nodes, NodeValid registry node
  edges : ∀ e ∈ d.edges, e.from_node ∈ d.node_ids ∧ e.to_node ∈ d.node_ids

/-- The tables that the edge loop fills. -/
def edge_tables (d : WorkflowDefinition) : EdgeTables where
  adj := Kahn.successors d.edge_pairs
  in_degree := fun x => Kahn.pending d.edge_pairs [] x

/-- The nodes whose in-degree is zero, in node order. -/
def zero_in_degree (d : WorkflowDefinition) (g : EdgeTables) : List String :=
  d.node_ids.filter fun n => decide (g.in_degree n = 0)

section Whole

variable {registry : ExecutorRegistry} {d : WorkflowDefinition}

/-- The first two loops pass exactly on checked definitions. -/
theorem checked_iff :
    Checked registry d ↔ check_nodes registry [] d.nodes = .ok () ∧
      add_edges d.node_ids ⟨fun _ => [], fun _ => 0⟩ d.edges = .ok (edge_tables d) := by
  constructor
  · intro h
    refine ⟨check_nodes_ok_iff.mpr ⟨h.nodup, fun _ _ => List.not_mem_nil, h.nodes⟩, ?_⟩
    obtain ⟨g, hg⟩ := add_edges_of_ends ⟨fun _ => [], fun _ => 0⟩ h.edges
    obtain ⟨-, hadj, hdeg⟩ := add_edges_ok hg
    have htables : g = edge_tables d := by
      obtain ⟨adj, in_degree⟩ := g
      unfold edge_tables
      congr 1
      · funext x
        exact hadj x
      · funext x
        exact (hdeg x).trans (zero_add _)
    rw [hg, htables]
  · rintro ⟨hnodes, hedges⟩
    obtain ⟨hnodup, -, hvalid⟩ := check_nodes_ok_iff.mp hnodes
    exact ⟨hnodup, hvalid, (add_edges_ok hedges).1⟩

/-- The invariant of Kahn's loop when it starts. -/
theorem Checked.inv (h : Checked registry d) :
    Kahn.Inv d.node_ids d.edge_pairs (zero_in_degree d (edge_tables d))
      (edge_tables d).in_degree [] :=
  Kahn.Inv.init h.nodup _ fun _ _ => rfl

theorem Checked.pairs (h : Checked registry d) :
    ∀ e ∈ d.edge_pairs, e.1 ∈ d.node_ids ∧ e.2 ∈ d.node_ids := by
  intro e he
  obtain ⟨edge, hedge, rfl⟩ := List.mem_map.mp he
  exact h.edges edge hedge

/-- The order that Kahn's loop builds for a checked definition. -/
def kahn_order (d : WorkflowDefinition) : List String :=
  Kahn.sort (edge_tables d).adj d.nodes.length (zero_in_degree d (edge_tables d))
    (edge_tables d).in_degree []

theorem Checked.length_iff (h : Checked registry d) :
    (kahn_order d).length = d.nodes.length ↔ EdgeGraph.Acyclic d.edge_pairs := by
  have hiff := Kahn.sort_length_iff h.nodup h.pairs h.inv
  rw [show d.node_ids.length = d.nodes.length from List.length_map _] at hiff
  exact hiff

/-- `validate_workflow` from Kahn's loop on. -/
theorem Checked.validate_eq (h : Checked registry d) :
    validate_workflow d registry =
      if zero_in_degree d (edge_tables d) = [] ∧ d.nodes ≠ [] then
        .error { message := "Workflow contains a cycle and has no root nodes."
                 code := "cycle_detected" }
      else if (kahn_order d).length ≠ d.nodes.length then
        .error { message := "Workflow contains a cycle.", code := "cycle_detected" }
      else
        .ok { valid := true, root_nodes := zero_in_degree d (edge_tables d)
              topological_order := kahn_order d } := by
  obtain ⟨hnodes, hedges⟩ := checked_iff.mp h
  unfold validate_workflow kahn_order zero_in_degree
  simp only [hnodes, hedges, bind, Except.bind]
  split
  · rfl
  · split
    · rfl
    · rfl

/-- A checked definition without a cycle is accepted. -/
theorem Checked.validate_of_acyclic (h : Checked registry d)
    (hacyclic : EdgeGraph.Acyclic d.edge_pairs) :
    validate_workflow d registry
      = .ok { valid := true, root_nodes := zero_in_degree d (edge_tables d)
              topological_order := kahn_order d } := by
  have hlen := h.length_iff.mpr hacyclic
  have hroots : ¬ (zero_in_degree d (edge_tables d) = [] ∧ d.nodes ≠ []) := by
    rintro ⟨hroots, hne⟩
    -- without roots the order is empty
    have hnil : kahn_order d = [] := by
      unfold kahn_order
      rw [hroots]
      cases d.nodes.length <;> rfl
    rw [hnil] at hlen
    exact hne (List.length_eq_zero_iff.mp hlen.symm)
  rw [h.validate_eq, if_neg hroots, if_neg (not_not.mpr hlen)]

/-- A checked definition with a cycle is not. -/
theorem Checked.validate_of_cycle (h : Checked registry d)
    (hcycle : ¬ EdgeGraph.Acyclic d.edge_pairs) :
    ∃ message, validate_workflow d registry = .error { message, code := "cycle_detected" } := by
  have hlen : (kahn_order d).length ≠ d.nodes.length := fun hlen => hcycle (h.length_iff.mp hlen)
  rw [h.validate_eq, if_pos hlen]
  split
  · exact ⟨_, rfl⟩
  · exact ⟨_, rfl⟩

/-- Any other definition is refused for something else. -/
theorem validate_of_not_checked (h : ¬ Checked registry d) :
    ∃ err, validate_workflow d registry = .error err ∧ err.code ≠ "cycle_detected" := by
  unfold validate_workflow
  simp only [bind, Except.bind]
  split
  · rename_i err hnodes
    exact ⟨err, rfl, check_nodes_error hnodes⟩
  · rename_i hnodes
    split
    · rename_i err hedges
      exact ⟨err, rfl, add_edges_error hedges⟩
    · rename_i g hedges
      obtain ⟨hnodup, -, hvalid⟩ := check_nodes_ok_iff.mp hnodes
      exact absurd ⟨hnodup, hvalid, (add_edges_ok hedges).1⟩ h

end Whole

/-! ## What acceptance gives -/

/-- The facts about a definition that an accepted one has. -/
structure WellFormed (d : WorkflowDefinition) : Prop where
  /-- Node ids are distinct. -/
  nodup : d.node_ids.Nodup
  /-- No edge dangles. -/
  edges : ∀ e ∈ d.edges, e.from_node ∈ d.node_ids ∧ e.to_node ∈ d.node_ids
  /-- The edges can be ranked, so there is no directed cycle. -/
  ranked : ∃ rank : String → ℕ, ∀ e ∈ d.edges, rank e.from_node < rank e.to_node

/-- `d` passes validation against `registry`. -/
def Accepted (registry : ExecutorRegistry) (d : WorkflowDefinition) : Prop :=
  ∃ result, validate_workflow d registry = .ok result

theorem WellFormed.parent_mem {d : WorkflowDefinition} (hd : WellFormed d) {p n : String}
    (h : p ∈ d.parent_ids n) : p ∈ d.node_ids := by
  obtain ⟨e, he, rfl, -⟩ := WorkflowDefinition.mem_parent_ids.mp h
  exact (hd.edges e he).1

theorem WellFormed.child_mem {d : WorkflowDefinition} (hd : WellFormed d) {n c : String}
    (h : c ∈ d.child_ids n) : c ∈ d.node_ids := by
  obtain ⟨e, he, -, rfl⟩ := WorkflowDefinition.mem_child_ids.mp h
  exact (hd.edges e he).2

/-- **Induction along the DAG**: what holds of a node as soon as it holds of its parents
holds of every node. Kahn's order gives the rank, and the induction is on it; it is used
wherever something is passed on from parents to children. -/
theorem WellFormed.induction {d : WorkflowDefinition} (hd : WellFormed d) {P : String → Prop}
    (h : ∀ n, (∀ p ∈ d.parent_ids n, P p) → P n) (n : String) : P n := by
  obtain ⟨rank, hrank⟩ := hd.ranked
  -- on the rank: an edge goes up in it
  induction hk : rank n using Nat.strong_induction_on generalizing n with
  | _ k ih =>
      refine h n fun p hp => ?_
      obtain ⟨e, he, rfl, rfl⟩ := WorkflowDefinition.mem_parent_ids.mp hp
      exact ih _ (hk ▸ hrank e he) _ rfl

/-- No node is its own parent. -/
theorem WellFormed.not_self_parent {d : WorkflowDefinition} (hd : WellFormed d) (n : String) :
    n ∉ d.parent_ids n := by
  obtain ⟨rank, hrank⟩ := hd.ranked
  intro h
  obtain ⟨e, he, hf, ht⟩ := WorkflowDefinition.mem_parent_ids.mp h
  have := hrank e he
  rw [hf, ht] at this
  exact lt_irrefl _ this

/-- No edge points at a node exactly when its in-degree counter is zero. -/
theorem pending_nil_eq_zero_iff (d : WorkflowDefinition) (n : String) :
    Kahn.pending d.edge_pairs [] n = 0 ↔ d.parent_ids n = [] := by
  unfold Kahn.pending WorkflowDefinition.edge_pairs WorkflowDefinition.parent_ids
  rw [List.countP_eq_zero, List.map_eq_nil_iff, List.filter_eq_nil_iff]
  simp

/-- Acceptance is to be checked and to have no cycle; the result is what the
loop has built. -/
theorem validate_workflow_ok_iff {d : WorkflowDefinition} {registry : ExecutorRegistry}
    {result : ValidationResult} :
    validate_workflow d registry = .ok result ↔
      (Checked registry d ∧ EdgeGraph.Acyclic d.edge_pairs) ∧
        result = { valid := true, root_nodes := zero_in_degree d (edge_tables d)
                   topological_order := kahn_order d } := by
  by_cases hchecked : Checked registry d
  · by_cases hacyclic : EdgeGraph.Acyclic d.edge_pairs
    · rw [hchecked.validate_of_acyclic hacyclic, Except.ok.injEq]
      exact ⟨fun h => ⟨⟨hchecked, hacyclic⟩, h.symm⟩, fun h => h.2.symm⟩
    · obtain ⟨message, herr⟩ := hchecked.validate_of_cycle hacyclic
      rw [herr]
      constructor
      · intro h
        cases h
      · intro h
        exact absurd h.1.2 hacyclic
  · obtain ⟨err, herr, -⟩ := validate_of_not_checked hchecked
    rw [herr]
    constructor
    · intro h
      cases h
    · intro h
      exact absurd h.1.1 hchecked

/-- The roots are the nodes without a parent. -/
theorem zero_in_degree_eq (d : WorkflowDefinition) :
    zero_in_degree d (edge_tables d)
      = d.node_ids.filter fun n => decide (d.parent_ids n = []) := by
  apply List.filter_congr
  intro n _
  rw [decide_eq_decide, ← pending_nil_eq_zero_iff]
  exact Int.natCast_eq_zero

/-- The order of an accepted definition. -/
theorem Checked.order_spec {d : WorkflowDefinition} {registry : ExecutorRegistry}
    (h : Checked registry d) (hacyclic : EdgeGraph.Acyclic d.edge_pairs) :
    (kahn_order d).Perm d.node_ids ∧
      ∀ e ∈ d.edges, (kahn_order d).idxOf e.from_node < (kahn_order d).idxOf e.to_node := by
  have hends : ∀ e ∈ d.edge_pairs, e.2 ∈ d.node_ids := fun e he => (h.pairs e he).2
  have hlen : (kahn_order d).length = d.node_ids.length := by
    rw [h.length_iff.mpr hacyclic]
    exact (List.length_map _).symm
  have hperm : (kahn_order d).Perm d.node_ids := Kahn.sort_perm d.nodes.length hends h.inv hlen
  refine ⟨hperm, ?_⟩
  intro e he
  have hmem : (e.from_node, e.to_node) ∈ d.edge_pairs := List.mem_map.mpr ⟨e, he, rfl⟩
  exact (Kahn.sort_ordered d.nodes.length hends h.inv _ hmem
    (hperm.mem_iff.mpr (h.edges e he).2)).2

/-- **What `validate_workflow` guarantees.** Later modules take the definition through
these facts alone, and do not look at the loops again. -/
theorem validate_workflow_spec {d : WorkflowDefinition} {registry : ExecutorRegistry}
    {result : ValidationResult} (h : validate_workflow d registry = .ok result) :
    WellFormed d ∧ (∀ node ∈ d.nodes, ∃ executor, registry.get node.type = .ok executor) ∧
      result.root_nodes = d.node_ids.filter (fun n => decide (d.parent_ids n = [])) := by
  obtain ⟨⟨hchecked, hacyclic⟩, rfl⟩ := validate_workflow_ok_iff.mp h
  refine ⟨⟨hchecked.nodup, hchecked.edges, ?_⟩, ?_, zero_in_degree_eq d⟩
  · -- the position in the returned order ranks the edges
    exact ⟨(kahn_order d).idxOf, (hchecked.order_spec hacyclic).2⟩
  · intro node hnode
    obtain ⟨executor, hget, -⟩ := hchecked.nodes node hnode
    exact ⟨executor, hget⟩

theorem Accepted.wellFormed {registry : ExecutorRegistry} {d : WorkflowDefinition}
    (h : Accepted registry d) : WellFormed d := by
  obtain ⟨_, hr⟩ := h
  exact (validate_workflow_spec hr).1

/-- No edge points at a node exactly when it has no parent. -/
theorem parent_ids_eq_nil_iff (d : WorkflowDefinition) (n : String) :
    d.parent_ids n = [] ↔ ∀ e ∈ d.edges, e.to_node ≠ n := by
  unfold WorkflowDefinition.parent_ids
  rw [List.map_eq_nil_iff, List.filter_eq_nil_iff]
  simp only [decide_eq_true_eq, ne_eq]

/-- **`validate_workflow` is exactly the DAG check**, for all node and edge lists. It
returns if and only if the definition is checked and has no cycle, and reports a cycle if
and only if there is one and nothing else is wrong; what it returns is a topological order
of the nodes and the nodes without an incoming edge; and Kahn's loop ends. Acyclicity is
said of the list of edges, without reference to the algorithm: no node has a walk of
positive length to itself. That Kahn's loop returns all nodes if and only if this holds is
proved in `Library/Kahn.lean`; here the tables of the two loops are shown to be the ones
it expects ([`add_edges_ok`]), and the error codes are told apart. -/
theorem validate_workflow_exact (d : WorkflowDefinition) (registry : ExecutorRegistry) :
    ((∃ result, validate_workflow d registry = .ok result) ↔
      Checked registry d ∧ EdgeGraph.Acyclic d.edge_pairs) ∧
    ((∃ err, validate_workflow d registry = .error err ∧ err.code = "cycle_detected") ↔
      Checked registry d ∧ ¬ EdgeGraph.Acyclic d.edge_pairs) ∧
    (∀ result, validate_workflow d registry = .ok result →
      result.topological_order.Perm d.node_ids ∧
      (∀ e ∈ d.edges, result.topological_order.idxOf e.from_node
        < result.topological_order.idxOf e.to_node) ∧
      result.root_nodes = d.node_ids.filter fun n => decide (∀ e ∈ d.edges, e.to_node ≠ n)) ∧
    ∀ g, check_nodes registry [] d.nodes = .ok () →
      add_edges d.node_ids ⟨fun _ => [], fun _ => 0⟩ d.edges = .ok g →
      Kahn.Loop g.adj (zero_in_degree d g) g.in_degree []
        (Kahn.sort g.adj d.nodes.length (zero_in_degree d g) g.in_degree []) := by
  refine ⟨?_, ?_, ?_, ?_⟩
  · constructor
    · rintro ⟨result, h⟩
      exact (validate_workflow_ok_iff.mp h).1
    · intro h
      exact ⟨_, validate_workflow_ok_iff.mpr ⟨h, rfl⟩⟩
  · constructor
    · rintro ⟨err, herr, hcode⟩
      by_cases hchecked : Checked registry d
      · refine ⟨hchecked, ?_⟩
        intro hacyclic
        rw [hchecked.validate_of_acyclic hacyclic] at herr
        cases herr
      · obtain ⟨err', herr', hcode'⟩ := validate_of_not_checked hchecked
        rw [herr'] at herr
        cases herr
        exact absurd hcode hcode'
    · rintro ⟨hchecked, hcycle⟩
      obtain ⟨message, herr⟩ := hchecked.validate_of_cycle hcycle
      exact ⟨_, herr, rfl⟩
  · intro result h
    obtain ⟨⟨hchecked, hacyclic⟩, rfl⟩ := validate_workflow_ok_iff.mp h
    obtain ⟨hperm, hordered⟩ := hchecked.order_spec hacyclic
    refine ⟨hperm, hordered, ?_⟩
    show zero_in_degree d (edge_tables d) = _
    rw [zero_in_degree_eq]
    apply List.filter_congr
    intro n _
    rw [decide_eq_decide]
    exact parent_ids_eq_nil_iff d n
  · intro g hnodes hedges
    obtain ⟨hnodup, -, hvalid⟩ := check_nodes_ok_iff.mp hnodes
    have hchecked : Checked registry d := ⟨hnodup, hvalid, (add_edges_ok hedges).1⟩
    -- the tables are those of the edge list
    rw [(checked_iff.mp hchecked).2] at hedges
    cases hedges
    have hfuel : d.node_ids.length ≤ d.nodes.length + ([] : List String).length :=
      (List.length_map _).le
    exact (hchecked.inv.loop (fun e he => (hchecked.pairs e he).2) hfuel).1

/-- Two edges from `left` to `right`, the second a repetition, and `alone`. -/
def repeated_edge_definition : WorkflowDefinition where
  name := "repeated"
  nodes :=
    [{ id := "right", type := "step" }, { id := "left", type := "step" },
      { id := "alone", type := "step" }]
  edges :=
    [{ from_node := "left", to_node := "right" }, { from_node := "left", to_node := "right" }]

theorem validate_workflow_exact_repeated_edge :
    (∃ result, validate_workflow repeated_edge_definition (fun _ => some ⟨fun _ => .ok ()⟩)
        = .ok result ∧ result.topological_order = ["left", "alone", "right"] ∧
        result.topological_order.Perm repeated_edge_definition.node_ids) ∧
      EdgeGraph.Acyclic repeated_edge_definition.edge_pairs := by
  obtain ⟨haccepted, -, hresult, -⟩ :=
    validate_workflow_exact repeated_edge_definition fun _ => some ⟨fun _ => .ok ()⟩
  have hok : validate_workflow repeated_edge_definition (fun _ => some ⟨fun _ => .ok ()⟩)
      = .ok { valid := true, root_nodes := ["left", "alone"]
              topological_order := ["left", "alone", "right"] } := rfl
  exact ⟨⟨_, hok, rfl, (hresult _ hok).1⟩, (haccepted.mp ⟨_, hok⟩).2⟩

end EventFlow
