/-
The visual editor of a workflow: the page
`frontend/src/app/(dashboard)/workflows/[id]/page.tsx` and
`frontend/src/components/workflows/ReactFlowEditor.tsx`.

The page holds a definition as JSON text. It hands the parsed text to the editor
and takes each definition that the editor passes to `onChange` as its new text.
The editor turns a definition into the nodes and edges of React Flow (`load`)
whenever it gets a new one, and back (`notify_change`) in every handler. So
between two user operations its nodes and edges are those of the last
definition, and all that it keeps beside them is the selected node.

A handler is what it passes to `onChange`. All handlers that one user operation
calls are closed over the nodes and edges of one render; the page is left with
the last definition passed.

JavaScript has one type of numbers, and reads an integer as the nearest double;
one too large for that is infinite, which is written as `null`. A property that
is not there is `undefined`, and a property that is `undefined` is not written.

What `@xyflow/react` does is a parameter (`ReactFlow`), with what the editor
relies on as laws.
-/
import EventFlow.Library.DepthFirst
import EventFlow.Protobuf
import EventFlow.Versions

set_option autoImplicit false

namespace EventFlow

open BinaryFloat

/-! ## JSON in the browser -/

namespace Json

mutual

/-- A value as the page parses it. `JSON.parse` makes doubles of all numbers, wherever
they stand. -/
def in_browser : Json → Json
  | .int n =>
    match binary64.of_int n with
    | some m => .int m
    | none => .null
  | .arr items => .arr (in_browser_items items)
  | .obj members => .obj (in_browser_members members)
  | v => v

def in_browser_items : List Json → List Json
  | [] => []
  | v :: vs => in_browser v :: in_browser_items vs

def in_browser_members : List (String × Json) → List (String × Json)
  | [] => []
  | (k, v) :: vs => (k, in_browser v) :: in_browser_members vs

end

/-- JavaScript's truth value. An empty object or array is true, other than in Python. -/
def js_truthy : Json → Bool
  | .null => false
  | .bool b => b
  | .int n => decide (n ≠ 0)
  | .float q => decide (q ≠ 0)
  | .str s => decide (s ≠ "")
  | .arr _ => true
  | .obj _ => true

/-- `v.key`, `none` for `undefined`. -/
def prop (v : Json) (key : String) : Option Json :=
  match v with
  | .obj members => members.lookup key
  | _ => none

/-- `v.key` where it is a string if it is there; `undefined` is as falsy as the empty
string. The ids that a definition has are strings in the type of the page. -/
def prop_str (v : Json) (key : String) : String :=
  match v.prop key with
  | some (.str s) => s
  | _ => ""

end Json

/-- `a || b`. -/
def js_or (a b : String) : String := if a = "" then b else a

/-! ## The page -/

/-- The version with the highest number. -/
def latest_version (versions : List WorkflowVersionRow) : Option WorkflowVersionRow :=
  (versions.insertionSort fun v w => w.version_number ≤ v.version_number).head?

/-- The definition that the page shows: that of the latest version, parsed. -/
def page_definition (versions : List WorkflowVersionRow) : Option Json :=
  (latest_version versions).map fun version => version.definition.in_browser

/-! ## React Flow -/

/-- A node of the canvas, with `data.type`, `data.name` and `data.config`. -/
structure FlowNode where
  id : String
  type : Option Json
  name : Option Json
  config : Json

/-- An edge of the canvas. -/
structure FlowEdge where
  id : String
  source : String
  target : String
  label : Option Json := none

/-- What the editor calls: `applyNodeChanges` and `applyEdgeChanges` for changes
that remove the elements with the ids given, and `addEdge`. -/
structure ReactFlow where
  apply_node_changes : List String → List FlowNode → List FlowNode
  apply_edge_changes : List String → List FlowEdge → List FlowEdge
  add_edge : String → String → List FlowEdge → List FlowEdge

/-- What the editor relies on. They are about changes that remove something, and about
adding one edge; nothing is asked about positions or selection. -/
structure ReactFlow.Laws (R : ReactFlow) : Prop where
  /-- The elements with an id that is removed go, all others stay. -/
  apply_node_changes : ∀ removed nodes,
    R.apply_node_changes removed nodes = nodes.filter fun n => decide (n.id ∉ removed)
  apply_edge_changes : ∀ removed edges,
    R.apply_edge_changes removed edges = edges.filter fun e => decide (e.id ∉ removed)
  /-- The connection is added at the end, unless it exists. -/
  add_edge : ∀ source target edges, R.add_edge source target edges = edges ∨
    ∃ id, R.add_edge source target edges = edges ++ [{ id := id, source, target }]

/-- The package, as far as the editor uses it. -/
def xyflow_react : ReactFlow where
  apply_node_changes := fun removed nodes => nodes.filter fun n => decide (n.id ∉ removed)
  apply_edge_changes := fun removed edges => edges.filter fun e => decide (e.id ∉ removed)
  add_edge := fun source target edges =>
    if edges.any fun e => decide (e.source = source ∧ e.target = target) then edges
    else edges ++ [{ id := s!"xy-edge__{source}-{target}", source, target }]

theorem xyflow_react_laws : xyflow_react.Laws where
  apply_node_changes := fun _ _ => rfl
  apply_edge_changes := fun _ _ => rfl
  add_edge := by
    intro source target edges
    unfold xyflow_react
    dsimp only
    split
    · exact Or.inl rfl
    · exact Or.inr ⟨_, rfl⟩

/-! ## Definitions on the canvas -/

/-- The nodes and edges of the canvas. -/
structure Canvas where
  nodes : List FlowNode
  edges : List FlowEdge

/-- `workflow.nodes || []` and `workflow.edges || []`. -/
def elements (workflow : JsonObject) (key : String) : List Json :=
  match workflow.lookup key with
  | some (.arr items) => items
  | _ => []

/-- `n.config || {}`. -/
def config_or_empty (n : Json) : Json :=
  match n.prop "config" with
  | some config => if config.js_truthy then config else .obj []
  | none => .obj []

/-- The nodes of a definition; `index` is the position, `seen_ids` what is taken. An id
that is missing or taken is replaced by one made from the position, and that one is not
looked up. -/
def load_nodes : ℕ → List String → List Json → List FlowNode
  | _, _, [] => []
  | index, seen_ids, n :: rest =>
    -- a node without an id, or with one that is taken, gets one from its place
    let own := n.prop_str "id"
    let id := if own = "" ∨ own ∈ seen_ids then s!"node_auto_{index}" else own
    { id, type := n.prop "type", name := n.prop "name", config := config_or_empty n } ::
      load_nodes (index + 1) (id :: seen_ids) rest

/-- An edge of a definition, `none` if it lacks an end. The ends are looked for under
`from` or `source`, and `to` or `target`. -/
def load_edge (e : Json) : Option FlowEdge :=
  let source := js_or (e.prop_str "from") (e.prop_str "source")
  let target := js_or (e.prop_str "to") (e.prop_str "target")
  if source = "" ∨ target = "" then none
  else some
    { id := s!"{source}-{target}", source, target
      label := (e.prop "condition").filter Json.js_truthy }

/-- The nodes and edges the editor makes of a definition. -/
def load (workflow : JsonObject) : Canvas where
  nodes := load_nodes 0 [] (elements workflow "nodes")
  edges := (elements workflow "edges").filterMap load_edge

/-- A node as it is written. -/
def FlowNode.to_json (n : FlowNode) : Json :=
  .obj (exclude_none
    [("id", some (.str n.id)), ("type", n.type), ("name", n.name), ("config", some n.config)])

/-- An edge as it is written. -/
def FlowEdge.to_json (e : FlowEdge) : Json :=
  .obj (exclude_none
    [("from", some (.str e.source)), ("to", some (.str e.target)), ("condition", e.label)])

/-- `notifyChange`: the definition passed to `onChange`. It is made of the nodes and edges
that the handler was given, whatever has been passed on since. -/
def notify_change (workflow : JsonObject) (nodes : List FlowNode) (edges : List FlowEdge) :
    JsonObject :=
  JsonObject.assign
    (JsonObject.assign workflow "nodes" (.arr (nodes.map FlowNode.to_json)))
    "edges" (.arr (edges.map FlowEdge.to_json))

/-! ## The cycle guard -/

/-- The loop that fills `adj`. -/
def fill_adj : (String → List String) → List FlowEdge → String → List String
  | adj, [] => adj
  | adj, e :: rest => fill_adj (Function.update adj e.source (adj e.source ++ [e.target])) rest

/-- `createsCycle`; `fuel` bounds the depth of its recursion, and `none` is that it was
not enough. The set of visited nodes is shared by all branches of the search. -/
def creates_cycle (fuel : ℕ) (source target : String) (all_edges : List FlowEdge) :
    Option Bool :=
  if source = target then some true
  else
    (DepthFirst.visit (fill_adj (fun _ => []) all_edges) source fuel target []).map Prod.fst

/-- The depth that is enough. -/
def cycle_depth (all_edges : List FlowEdge) : ℕ := all_edges.length + 2

/-! ## The handlers -/

/-- The editor between two user operations: the definition it shows, the
selected node, and what it has passed to `onChange` last. -/
structure Editor where
  workflow : JsonObject
  selected_node_id : Option String := none
  changed : Option JsonObject := none

/-- What a user does. -/
inductive EditorOp where
  /-- A click on the palette; `suffix` is what is taken of a new uuid. -/
  | add_node (type suffix : String)
  | connect (source target : String)
  | delete_edges (ids : List String)
  | delete_nodes (ids : List String)
  | update_config (node_id name : String) (config : JsonObject)
  /-- A click on a node, on the pane, or on the close button of the panel. -/
  | select (node_id : Option String)

/-- The `config` of a new node. -/
def new_config : String → JsonObject
  | "http" => [("method", .str "GET"), ("url", .str "")]
  | "delay" => [("duration_seconds", .int 5)]
  | _ => []

def new_node (type id : String) : FlowNode where
  id := id
  type := some (.str type)
  name := some (.str s!"New {type}")
  config := .obj (new_config type)

namespace Editor

variable (R : ReactFlow) (e : Editor)

def canvas : Canvas := load e.workflow

/-- `onNodesChange` for nodes that are removed. The edges are written as they were
rendered, those at the removed nodes too. -/
def on_nodes_change (removed : List String) : JsonObject :=
  notify_change e.workflow (R.apply_node_changes removed e.canvas.nodes) e.canvas.edges

/-- `onEdgesChange` for edges that are removed. -/
def on_edges_change (removed : List String) : JsonObject :=
  notify_change e.workflow e.canvas.nodes (R.apply_edge_changes removed e.canvas.edges)

/-- `onConnect`. -/
def on_connect (source target : String) : Option JsonObject :=
  match creates_cycle (cycle_depth e.canvas.edges) source target e.canvas.edges with
  | some false =>
    some (notify_change e.workflow e.canvas.nodes (R.add_edge source target e.canvas.edges))
  | _ => none

/-- `handleUpdateConfig`. Everything but the name and the config of the one node is
written as the canvas has it. -/
def handle_update_config (node_id name : String) (config : JsonObject) : JsonObject :=
  notify_change e.workflow
    (e.canvas.nodes.map fun n =>
      if n.id = node_id then { n with name := some (.str name), config := .obj config } else n)
    e.canvas.edges

/-- `selectedNodeId || (nodes.length > 0 ? nodes[nodes.length - 1].id : null)`. So a node
is added below the selected one, and else below the last. -/
def parent_id : Option String :=
  match e.selected_node_id.filter (· ≠ "") with
  | some id => some id
  | none => e.canvas.nodes.getLast?.map FlowNode.id

/-- `addNode`. -/
def add_node (type new_node_id : String) : JsonObject :=
  let next_edges :=
    match e.parent_id.filter (· ≠ "") with
    | some parent_id =>
      e.canvas.edges ++
        [{ id := s!"{parent_id}-{new_node_id}", source := parent_id, target := new_node_id }]
    | none => e.canvas.edges
  notify_change e.workflow (e.canvas.nodes ++ [new_node type new_node_id]) next_edges

/-- The edges at one of the nodes. -/
def incident (ids : List String) : List FlowEdge :=
  e.canvas.edges.filter fun edge => decide (edge.source ∈ ids ∨ edge.target ∈ ids)

/-- What the handlers of one operation pass to `onChange`, in order. When nodes
are deleted React Flow first reports the edges at them, if there are any, and
then the nodes. -/
def calls : EditorOp → List JsonObject
  | .add_node type suffix => [e.add_node type s!"node_{suffix}"]
  | .connect source target => (e.on_connect R source target).toList
  | .delete_edges ids => [e.on_edges_change R ids]
  | .delete_nodes ids =>
    -- both handlers are those of the render before the deletion
    let edges := e.incident ids
    (if edges.isEmpty then [] else [e.on_edges_change R (edges.map FlowEdge.id)]) ++
      [e.on_nodes_change R ids]
  | .update_config node_id name config => [e.handle_update_config node_id name config]
  | .select _ => []

/-- The selected node after an operation. Deleting a node leaves it selected. -/
def selected_after : EditorOp → Option String
  | .add_node _ suffix => some s!"node_{suffix}"
  | .select node_id => node_id
  | _ => e.selected_node_id

/-- One user operation: the page is left with the last definition passed. -/
def step (op : EditorOp) : Editor :=
  match (e.calls R op).getLast? with
  -- nothing was passed on, and the canvas stays
  | none => { e with selected_node_id := e.selected_after op }
  | some workflow =>
    { workflow, selected_node_id := e.selected_after op, changed := some workflow }

end Editor

/-! ## What is written -/

theorem elements_of_lookup {workflow : JsonObject} {key : String} {items : List Json}
    (h : workflow.lookup key = some (.arr items)) : elements workflow key = items := by
  unfold elements
  rw [h]

section Written

variable (workflow : JsonObject) (nodes : List FlowNode) (edges : List FlowEdge)

theorem lookup_notify_change_nodes :
    (notify_change workflow nodes edges).lookup "nodes"
      = some (.arr (nodes.map FlowNode.to_json)) := by
  unfold notify_change
  rw [lookup_assign_of_ne _ _ (by decide), lookup_assign_self]

theorem lookup_notify_change_edges :
    (notify_change workflow nodes edges).lookup "edges"
      = some (.arr (edges.map FlowEdge.to_json)) :=
  lookup_assign_self _ _ _

theorem elements_notify_change_nodes :
    elements (notify_change workflow nodes edges) "nodes" = nodes.map FlowNode.to_json := by
  exact elements_of_lookup (lookup_notify_change_nodes workflow nodes edges)

theorem elements_notify_change_edges :
    elements (notify_change workflow nodes edges) "edges" = edges.map FlowEdge.to_json := by
  exact elements_of_lookup (lookup_notify_change_edges workflow nodes edges)

end Written

end EventFlow
