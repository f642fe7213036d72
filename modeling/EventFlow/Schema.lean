/-
The request schemas of `backend/app/schemas/workflow.py`, the retry policy of
`services/retry_policy.py` and the application error of `core/errors.py`.

The bounds that pydantic enforces on construction are fields of the
structures: a `RetryPolicy` with `max_attempts = 0` or a `Node` with an empty
id does not exist, here as there.

`parent_ids` and `child_ids` are the two list comprehensions over
`definition.edges` that the worker writes out at each use. Edges may be
repeated, so both lists may have repetitions.
-/
import EventFlow.Json
import EventFlow.Library.Kahn

set_option autoImplicit false

namespace EventFlow

/-- `core/errors.py`: an application error with its HTTP status. The API answers with its
status, its code and its message. -/
structure AppError where
  message : String
  code : String
  status_code : ℕ := 400
deriving DecidableEq, Repr

/-- An exception leaving a Python function. What happens after it depends on who catches
it, and that is said there. -/
inductive PyError where
  | app (error : AppError)
  | type_error (message : String)
  | key_error (key : String)
  | attribute_error (message : String)
  | stop_iteration
  | stale_data
  | multiple_results_found
deriving DecidableEq, Repr

/-- `RetryPolicy`, with the bounds of its `Field`s. -/
structure RetryPolicy where
  max_attempts : ℕ := 3
  initial_interval : ℕ := 1
  max_interval : ℕ := 3600
  backoff_multiplier : ℚ := 2
  max_attempts_ge : 1 ≤ max_attempts := by decide
  max_attempts_le : max_attempts ≤ 10 := by decide
  initial_interval_ge : 1 ≤ initial_interval := by decide
  max_interval_ge : 1 ≤ max_interval := by decide
  backoff_multiplier_ge : 1 ≤ backoff_multiplier := by decide

/-- A node of a workflow definition. `retry_policy` overrides the default of the
definition. -/
structure Node where
  id : String
  type : String
  name : String := ""
  config : JsonObject := []
  retry_policy : Option RetryPolicy := none
  id_length : id ≠ "" := by decide
  type_length : type ≠ "" := by decide

/-- An edge of a workflow definition (`from` and `to` in JSON). Edges have no ids, and two
of them may be equal. -/
structure Edge where
  from_node : String
  to_node : String
  condition : Option String := none

/-- A workflow definition as submitted and stored. That ids are distinct and that edges
lead to nodes is not part of the type; `validate_workflow` checks it. -/
structure WorkflowDefinition where
  name : String
  description : String := ""
  nodes : List Node
  edges : List Edge := []
  default_retry_policy : Option RetryPolicy := none
  name_length : name ≠ "" := by decide

/-- `DEFAULT_RETRY_POLICY`. -/
def DEFAULT_RETRY_POLICY : RetryPolicy := {}

/-- Node override, then workflow default, then safe default. -/
def resolve_retry_policy (node : Node) (definition : WorkflowDefinition) : RetryPolicy :=
  match node.retry_policy with
  | some policy => policy
  | none =>
    match definition.default_retry_policy with
    | some policy => policy
    | none => DEFAULT_RETRY_POLICY

namespace WorkflowDefinition

/-- The node ids in definition order. -/
def node_ids (d : WorkflowDefinition) : List String := d.nodes.map Node.id

/-- `[e.from_node for e in definition.edges if e.to_node == n]`. -/
def parent_ids (d : WorkflowDefinition) (n : String) : List String :=
  (d.edges.filter fun e => e.to_node = n).map Edge.from_node

/-- `[e.to_node for e in definition.edges if e.from_node == n]`. -/
def child_ids (d : WorkflowDefinition) (n : String) : List String :=
  (d.edges.filter fun e => e.from_node = n).map Edge.to_node

/-- `{n.id: n for n in definition.nodes}`: of nodes with one id the last stays. -/
def node_def_by_id (d : WorkflowDefinition) (n : String) : Option Node :=
  d.nodes.reverse.find? fun node => node.id = n

/-- The edges as pairs of ids. -/
def edge_pairs (d : WorkflowDefinition) : List (String × String) :=
  d.edges.map fun e => (e.from_node, e.to_node)

theorem mem_parent_ids {d : WorkflowDefinition} {p n : String} :
    p ∈ d.parent_ids n ↔ ∃ e ∈ d.edges, e.from_node = p ∧ e.to_node = n := by
  unfold parent_ids
  simp only [List.mem_map, List.mem_filter, decide_eq_true_eq]
  constructor
  · rintro ⟨e, ⟨he, ht⟩, hf⟩
    exact ⟨e, he, hf, ht⟩
  · rintro ⟨e, he, hf, ht⟩
    exact ⟨e, ⟨he, ht⟩, hf⟩

theorem mem_child_ids {d : WorkflowDefinition} {n c : String} :
    c ∈ d.child_ids n ↔ ∃ e ∈ d.edges, e.from_node = n ∧ e.to_node = c := by
  unfold child_ids
  simp only [List.mem_map, List.mem_filter, decide_eq_true_eq]
  constructor
  · rintro ⟨e, ⟨he, hf⟩, ht⟩
    exact ⟨e, he, hf, ht⟩
  · rintro ⟨e, he, hf, ht⟩
    exact ⟨e, ⟨he, hf⟩, ht⟩

/-- The two comprehensions read one edge relation. -/
theorem mem_child_ids_iff_mem_parent_ids {d : WorkflowDefinition} {p c : String} :
    c ∈ d.child_ids p ↔ p ∈ d.parent_ids c := by
  rw [mem_child_ids, mem_parent_ids]

theorem mem_node_ids {d : WorkflowDefinition} {n : String} :
    n ∈ d.node_ids ↔ ∃ node ∈ d.nodes, node.id = n := List.mem_map

/-- Looking a node up by its id finds a node of the definition. -/
theorem node_def_by_id_eq_some {d : WorkflowDefinition} {n : String} {node : Node}
    (h : d.node_def_by_id n = some node) : node ∈ d.nodes ∧ node.id = n := by
  unfold node_def_by_id at h
  have hid := List.find?_some h
  have hmem := List.mem_of_find?_eq_some h
  exact ⟨List.mem_reverse.mp hmem, by simpa using hid⟩

/-- Every id of the definition is found. -/
theorem exists_node_def_by_id {d : WorkflowDefinition} {n : String} (h : n ∈ d.node_ids) :
    ∃ node, d.node_def_by_id n = some node := by
  obtain ⟨node, hnode, rfl⟩ := mem_node_ids.mp h
  unfold node_def_by_id
  rw [← Option.isSome_iff_exists, List.find?_isSome]
  exact ⟨node, List.mem_reverse.mpr hnode, by simp⟩

/-- Under distinct ids the lookup inverts `Node.id`. -/
theorem node_def_by_id_of_mem {d : WorkflowDefinition} (hd : d.node_ids.Nodup) {node : Node}
    (h : node ∈ d.nodes) : d.node_def_by_id node.id = some node := by
  obtain ⟨found, hfound⟩ := exists_node_def_by_id (mem_node_ids.mpr ⟨node, h, rfl⟩)
  obtain ⟨hmem, hid⟩ := node_def_by_id_eq_some hfound
  rw [hfound, List.inj_on_of_nodup_map hd hmem h hid]

end WorkflowDefinition

end EventFlow
