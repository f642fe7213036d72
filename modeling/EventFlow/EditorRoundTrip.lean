/-
What the editor keeps of a stored definition: a definition goes from the store
through the page to the canvas, one node is edited, and what `notifyChange`
passes on is compared with what was stored.

Two things do not come back. The store writes the ends of an edge as `from_node`
and `to_node`, the editor reads `from`, `source`, `to` and `target`, and an edge
without ends is dropped: no stored edge arrives on the canvas. And a node of the
canvas has no retry policy. A third thing is of the browser: an integer in a
config comes back as the nearest double. [`preserved_iff`] is that nothing else
is lost.
-/
import EventFlow.Editor

set_option autoImplicit false

namespace EventFlow

open BinaryFloat

/-! ## Parsing in the browser -/

namespace Json

theorem in_browser_items_eq (items : List Json) :
    in_browser_items items = items.map in_browser := by
  induction items with
  | nil => rfl
  | cons v vs ih =>
      rw [in_browser_items, ih]
      rfl

theorem lookup_in_browser_members (members : List (String × Json)) (key : String) :
    (in_browser_members members).lookup key = (members.lookup key).map in_browser := by
  induction members with
  | nil => rfl
  | cons m ms ih =>
      obtain ⟨k, v⟩ := m
      rw [in_browser_members, List.lookup_cons, List.lookup_cons, ih]
      cases key == k with
      | false => rfl
      | true => rfl

theorem prop_in_browser (v : Json) (key : String) :
    v.in_browser.prop key = (v.prop key).map in_browser := by
  cases v with
  | obj members =>
      rw [in_browser]
      exact lookup_in_browser_members members key
  | int n =>
      rw [in_browser]
      cases binary64.of_int n with
      | none => rfl
      | some m => rfl
  | _ => rfl

mutual

/-- A value that comes back as it is. -/
theorem in_browser_eq_iff : ∀ v : Json, in_browser v = v ↔ v.Exact
  | .int n => by
      rw [in_browser, Exact, ← binary64.of_int_eq_self_iff]
      cases binary64.of_int n with
      | none => simp
      | some m => simp
  | .arr items => by
      rw [in_browser, Exact, Json.arr.injEq]
      exact in_browser_items_eq_iff items
  | .obj members => by
      rw [in_browser, Exact, Json.obj.injEq]
      exact in_browser_members_eq_iff members
  | .null => by simp [in_browser, Exact]
  | .bool _ => by simp [in_browser, Exact]
  | .float _ => by simp [in_browser, Exact]
  | .str _ => by simp [in_browser, Exact]

theorem in_browser_items_eq_iff : ∀ vs : List Json, in_browser_items vs = vs ↔ ExactItems vs
  | [] => by simp [in_browser_items, ExactItems]
  | v :: vs => by
      rw [in_browser_items, ExactItems, List.cons.injEq, in_browser_eq_iff v,
        in_browser_items_eq_iff vs]

theorem in_browser_members_eq_iff :
    ∀ vs : List (String × Json), in_browser_members vs = vs ↔ ExactMembers vs
  | [] => by simp [in_browser_members, ExactMembers]
  | (k, v) :: vs => by
      rw [in_browser_members, ExactMembers, List.cons.injEq, Prod.mk.injEq, in_browser_eq_iff v,
        in_browser_members_eq_iff vs, eq_self_iff_true, true_and]

end

end Json

/-! ## A stored definition on the canvas -/

/-- A node as it arrives on the canvas. -/
def Node.on_canvas (node : Node) : FlowNode where
  id := node.id
  type := some (.str node.type)
  name := some (.str node.name)
  config := .obj (Json.in_browser_members node.config)

/-- The members of a stored definition, as the page parses them. -/
def WorkflowDefinition.in_page (d : WorkflowDefinition) : JsonObject :=
  Json.in_browser_members (exclude_none
    [("name", some (.str d.name)), ("description", some (.str d.description)),
      ("nodes", some (.arr (d.nodes.map Node.model_dump))),
      ("edges", some (.arr (d.edges.map Edge.model_dump))),
      ("default_retry_policy", d.default_retry_policy.map RetryPolicy.model_dump)])

theorem model_dump_in_browser (d : WorkflowDefinition) :
    d.model_dump.in_browser = .obj d.in_page := by
  unfold WorkflowDefinition.model_dump WorkflowDefinition.in_page
  rw [Json.in_browser]

section Load

variable (d : WorkflowDefinition)

theorem elements_in_page_nodes :
    elements d.in_page "nodes" = d.nodes.map fun node => node.model_dump.in_browser := by
  apply elements_of_lookup
  unfold WorkflowDefinition.in_page
  rw [Json.lookup_in_browser_members]
  show some (Json.in_browser (.arr (d.nodes.map Node.model_dump))) = _
  rw [Json.in_browser, Json.in_browser_items_eq, List.map_map]
  rfl

theorem elements_in_page_edges :
    elements d.in_page "edges" = d.edges.map fun edge => edge.model_dump.in_browser := by
  apply elements_of_lookup
  unfold WorkflowDefinition.in_page
  rw [Json.lookup_in_browser_members]
  show some (Json.in_browser (.arr (d.edges.map Edge.model_dump))) = _
  rw [Json.in_browser, Json.in_browser_items_eq, List.map_map]
  rfl

/-- No stored edge has an end that the editor knows. -/
theorem load_edge_model_dump (edge : Edge) : load_edge edge.model_dump.in_browser = none := by
  obtain ⟨from_node, to_node, condition⟩ := edge
  -- neither `from` nor `source` is a member of the dump, with or without a condition
  unfold load_edge Json.prop_str
  rw [Json.prop_in_browser, Json.prop_in_browser]
  cases condition with
  | none => rfl
  | some condition => rfl

/-- What the editor reads of a stored node. -/
theorem model_dump_props (node : Node) :
    node.model_dump.in_browser.prop_str "id" = node.id ∧
      node.model_dump.in_browser.prop "type" = some (.str node.type) ∧
      node.model_dump.in_browser.prop "name" = some (.str node.name) ∧
      config_or_empty node.model_dump.in_browser
        = .obj (Json.in_browser_members node.config) := by
  obtain ⟨id, type, name, config, retry_policy, hid, htype⟩ := node
  unfold config_or_empty Json.prop_str
  rw [Json.prop_in_browser, Json.prop_in_browser, Json.prop_in_browser, Json.prop_in_browser]
  -- an object is truthy, the empty one too
  have hconfig : (if (Json.in_browser (.obj config)).js_truthy then Json.in_browser (.obj config)
      else .obj []) = .obj (Json.in_browser_members config) := by
    rw [Json.in_browser]
    rfl
  cases retry_policy with
  | none => exact ⟨rfl, rfl, rfl, hconfig⟩
  | some policy => exact ⟨rfl, rfl, rfl, hconfig⟩

/-- Distinct ids are kept. -/
theorem load_nodes_model_dump {nodes : List Node} {index : ℕ} {seen_ids : List String}
    (hnodup : (nodes.map Node.id).Nodup) (hseen : ∀ node ∈ nodes, node.id ∉ seen_ids) :
    load_nodes index seen_ids (nodes.map fun node => node.model_dump.in_browser)
      = nodes.map Node.on_canvas := by
  induction nodes generalizing index seen_ids with
  | nil => rfl
  | cons node rest ih =>
      rw [List.map_cons, List.nodup_cons] at hnodup
      rw [List.forall_mem_cons] at hseen
      obtain ⟨hid, htype, hname, hconfig⟩ := model_dump_props node
      have hkept : ¬ (node.id = "" ∨ node.id ∈ seen_ids) :=
        not_or.mpr ⟨node.id_length, hseen.1⟩
      have hrest : ∀ other ∈ rest, other.id ∉ node.id :: seen_ids := by
        intro other hother hmem
        rcases List.mem_cons.mp hmem with heq | hmem
        · exact hnodup.1 (List.mem_map.mpr ⟨other, hother, heq⟩)
        · exact hseen.2 other hother hmem
      rw [List.map_cons, List.map_cons, load_nodes, hid, htype, hname, hconfig, if_neg hkept,
        ih hnodup.2 hrest]
      rfl

/-- **A stored definition on the canvas**: all nodes and no edge. The ids are distinct and
not empty, so none of them is replaced. An edge is dropped because the ends that the
editor looks for are not among its members. -/
theorem load_in_page (hnodup : d.node_ids.Nodup) :
    load d.in_page = { nodes := d.nodes.map Node.on_canvas, edges := [] } := by
  unfold load
  rw [elements_in_page_nodes, elements_in_page_edges,
    load_nodes_model_dump hnodup fun _ _ => List.not_mem_nil, List.filterMap_map]
  congr 1
  rw [List.filterMap_eq_nil_iff]
  intro edge _
  exact load_edge_model_dump edge

end Load

/-! ## What is passed on -/

/-- A node after an edit, as the backend reads it. -/
def Node.edited (node_id name : String) (config : JsonObject) (node : Node) : Node :=
  if node.id = node_id then { node with name, config, retry_policy := none }
  else { node with config := Json.in_browser_members node.config, retry_policy := none }

section Edit

variable (py : Pydantic)

theorem model_validate_to_json (node : Node) (name : String) (config : JsonObject) :
    Node.model_validate py
        (FlowNode.to_json
          { id := node.id, type := some (.str node.type), name := some (.str name)
            config := .obj config })
      = .ok { node with name, config, retry_policy := none } := by
  unfold FlowNode.to_json Node.model_validate
  dsimp only
  rw [field_of_lookup rfl (validate_nonempty_str_of_ne node.id_length),
    field_of_lookup rfl (validate_nonempty_str_of_ne node.type_length),
    field_of_lookup rfl (show validate_str (.str name) = .ok name from rfl),
    field_of_lookup rfl (show validate_dict (.obj config) = .ok config from rfl),
    field_default _ rfl]
  rfl

/-- The edited node, written and read. -/
theorem model_validate_edited (node_id name : String) (config : JsonObject) (node : Node) :
    Node.model_validate py
        (FlowNode.to_json
          (if node.on_canvas.id = node_id then
            { node.on_canvas with name := some (.str name), config := .obj config }
          else node.on_canvas))
      = .ok (node.edited node_id name config) := by
  unfold Node.edited
  by_cases hid : node.id = node_id
  · rw [if_pos hid, if_pos (show node.on_canvas.id = node_id from hid)]
    exact model_validate_to_json py node name config
  · rw [if_neg hid, if_neg (show ¬ node.on_canvas.id = node_id from hid)]
    exact model_validate_to_json py node node.name (Json.in_browser_members node.config)

/-- The nodes and edges of a definition, as the backend reads them. -/
structure ReadsAs (workflow : JsonObject) (nodes : List Node) (edges : List Edge) : Prop where
  nodes : field workflow ["nodes"] none (validate_list (Node.model_validate py)) = .ok nodes
  edges : field workflow ["edges"] (some []) (validate_list Edge.model_validate) = .ok edges

theorem ReadsAs.unique {workflow : JsonObject} {nodes nodes' : List Node}
    {edges edges' : List Edge} (h : ReadsAs py workflow nodes edges)
    (h' : ReadsAs py workflow nodes' edges') : nodes' = nodes ∧ edges' = edges := by
  have hnodes := h'.nodes.symm.trans h.nodes
  have hedges := h'.edges.symm.trans h.edges
  rw [Except.ok.injEq] at hnodes hedges
  exact ⟨hnodes, hedges⟩

/-- What the edit of a node of a stored definition passes on. -/
theorem edit_reads_as {d : WorkflowDefinition} (hnodup : d.node_ids.Nodup)
    (node_id name : String) (config : JsonObject) :
    ReadsAs py (Editor.handle_update_config { workflow := d.in_page } node_id name config)
      (d.nodes.map (Node.edited node_id name config)) [] := by
  have hload : Editor.canvas { workflow := d.in_page }
      = { nodes := d.nodes.map Node.on_canvas, edges := [] } := load_in_page d hnodup
  unfold Editor.handle_update_config
  rw [hload]
  constructor
  · apply field_of_lookup (lookup_notify_change_nodes _ _ _)
    rw [List.map_map, List.map_map]
    exact validate_items_map (model_validate_edited py node_id name config) d.nodes 0
  · exact field_of_lookup (lookup_notify_change_edges _ _ _) rfl

end Edit

/-! ## What is preserved -/

/-- The node is the same, but for the name and config of the edited one. -/
structure SameNode (node_id : String) (node node' : Node) : Prop where
  id : node'.id = node.id
  type : node'.type = node.type
  retry_policy : node'.retry_policy = node.retry_policy
  other : node.id ≠ node_id → node'.name = node.name ∧ node'.config = node.config

/-- The definition has the nodes of `d` in the same order, but for the name and
config of one, and the same edges with the same conditions. -/
def Preserved (py : Pydantic) (node_id : String) (d : WorkflowDefinition)
    (workflow : JsonObject) : Prop :=
  ∃ nodes edges, ReadsAs py workflow nodes edges ∧
    List.Forall₂ (SameNode node_id) d.nodes nodes ∧ edges = d.edges

theorem sameNode_edited_iff {node_id name : String} {config : JsonObject} {node : Node} :
    SameNode node_id node (node.edited node_id name config) ↔
      node.retry_policy = none ∧ (node.id ≠ node_id → Json.ExactMembers node.config) := by
  unfold Node.edited
  by_cases hid : node.id = node_id
  · rw [if_pos hid]
    constructor
    · intro h
      exact ⟨h.retry_policy.symm, fun hne => absurd hid hne⟩
    · rintro ⟨hpolicy, -⟩
      exact ⟨rfl, rfl, hpolicy.symm, fun hne => absurd hid hne⟩
  · rw [if_neg hid]
    constructor
    · intro h
      exact ⟨h.retry_policy.symm, fun hne =>
        (Json.in_browser_members_eq_iff node.config).mp (h.other hne).2⟩
    · rintro ⟨hpolicy, hexact⟩
      exact ⟨rfl, rfl, hpolicy.symm, fun hne =>
        ⟨rfl, (Json.in_browser_members_eq_iff node.config).mpr (hexact hne)⟩⟩

/-- **What an edit preserves.** Nothing is lost exactly if there is nothing to lose. The
edited definition reads as the stored one with all edges and retry policies taken away and
the integers of the configs rounded ([`edit_reads_as`]); the three conditions say that
each of these changes nothing. The config of the edited node is the one that was put in,
so nothing is asked of it. -/
theorem preserved_iff (py : Pydantic) {d : WorkflowDefinition} (hnodup : d.node_ids.Nodup)
    (node_id name : String) (config : JsonObject) :
    Preserved py node_id d
        (Editor.handle_update_config { workflow := d.in_page } node_id name config) ↔
      d.edges = [] ∧ (∀ node ∈ d.nodes, node.retry_policy = none) ∧
        ∀ node ∈ d.nodes, node.id ≠ node_id → Json.ExactMembers node.config := by
  have hreads := edit_reads_as py hnodup node_id name config
  have hnodes : List.Forall₂ (SameNode node_id) d.nodes
        (d.nodes.map (Node.edited node_id name config)) ↔
      ∀ node ∈ d.nodes, node.retry_policy = none ∧
        (node.id ≠ node_id → Json.ExactMembers node.config) := by
    rw [List.forall₂_map_right_iff, List.forall₂_same]
    simp only [sameNode_edited_iff]
  constructor
  · rintro ⟨nodes, edges, hreads', hsame, hedges⟩
    -- a definition is read in one way
    obtain ⟨rfl, rfl⟩ := hreads.unique py hreads'
    have hall := hnodes.mp hsame
    exact ⟨hedges.symm, fun node hnode => (hall node hnode).1,
      fun node hnode => (hall node hnode).2⟩
  · rintro ⟨hedges, hpolicy, hexact⟩
    refine ⟨_, _, hreads, hnodes.mpr ?_, hedges.symm⟩
    intro node hnode
    exact ⟨hpolicy node hnode, hexact node hnode⟩

/-! ## Definitions of the store -/

/-- The latest version is one of the versions. -/
theorem mem_of_latest_version {versions : List WorkflowVersionRow} {version : WorkflowVersionRow}
    (h : latest_version versions = some version) : version ∈ versions :=
  (List.mem_insertionSort _).mp (List.mem_of_head? h)

/-- What the detail endpoint returns is stored. -/
theorem get_workflow_versions {s : Tables} {w key : ℕ} {row : WorkflowRow}
    {versions : List WorkflowVersionRow} (h : s.get_workflow w key = some (row, versions)) :
    versions ⊆ s.workflow_versions := by
  unfold Tables.get_workflow at h
  obtain ⟨row', -, heq⟩ := Option.map_eq_some_iff.mp h
  cases heq
  exact List.filter_subset_self _

/-- **When the editor preserves what it does not edit.** Of a workflow that the store
returns, an edit of one node keeps everything else exactly if the stored definition has no
edges, no node has a retry policy, and the other configs hold only integers that the
browser can represent. What the store returns was stored from an accepted definition, and
decodes to it; so its ids are distinct, and [`preserved_iff`] applies. -/
theorem editor_preserves_iff {env : ServiceEnv} {s : Tables} (hreach : s.Reachable env)
    {w key : ℕ} {row : WorkflowRow} {versions : List WorkflowVersionRow}
    (hget : s.get_workflow w key = some (row, versions)) {version : WorkflowVersionRow}
    (hlatest : latest_version versions = some version) {d : WorkflowDefinition}
    (hdecoded : WorkflowDefinition.model_validate env.pydantic version.definition = .ok d) :
    ∃ workflow, page_definition versions = some (.obj workflow) ∧
      ∀ (node_id name : String) (config : JsonObject),
        Preserved env.pydantic node_id d
            (Editor.handle_update_config { workflow } node_id name config) ↔
          d.edges = [] ∧ (∀ node ∈ d.nodes, node.retry_policy = none) ∧
            ∀ node ∈ d.nodes, node.id ≠ node_id → Json.ExactMembers node.config := by
  have hstored := hreach.stored version
    (get_workflow_versions hget (mem_of_latest_version hlatest))
  obtain ⟨d', haccepted, hdump, hdecoded'⟩ := hstored.model_validate
  -- the definition that is compared is the one that was stored
  rw [hdecoded'] at hdecoded
  cases hdecoded
  refine ⟨d.in_page, ?_, ?_⟩
  · unfold page_definition
    rw [hlatest, Option.map_some, hdump, model_dump_in_browser]
  · intro node_id name config
    exact preserved_iff env.pydantic haccepted.wellFormed.nodup node_id name config

/-- One node and nothing to lose. -/
def lone_definition : WorkflowDefinition where
  name := "lone"
  nodes := [{ id := "only", type := "unit" }]

def lone_tables : Tables :=
  Tables.call any_services {} 1 (.create_workflow "lone" "" lone_definition 0 0 0)

theorem editor_preserves_iff_lone :
    ∃ workflow,
      (lone_tables.get_workflow 0 1).bind (fun found => page_definition found.2)
        = some (.obj workflow) ∧
      Preserved any_services.pydantic "only" lone_definition
        (Editor.handle_update_config { workflow } "only" "renamed" []) := by
  have hreach : lone_tables.Reachable any_services :=
    Transition.Reaches.single (.call 1 (.create_workflow "lone" "" lone_definition 0 0 0))
      trivial rfl
  have hget : lone_tables.get_workflow 0 1
      = some ({ id := 0, owner_api_key_id := 1, name := "lone", description := some ""
                created_at := 0, updated_at := 0 }, lone_tables.workflow_versions) := rfl
  have hlatest : latest_version lone_tables.workflow_versions
      = some { id := 0, workflow_id := 0, version_number := 1
               definition := lone_definition.model_dump, checksum := "", created_at := 0 } := rfl
  obtain ⟨workflow, hpage, hiff⟩ := editor_preserves_iff hreach hget hlatest
    (WorkflowDefinition.model_validate_model_dump any_services.pydantic lone_definition)
  refine ⟨workflow, by rw [hget]; exact hpage, (hiff "only" "renamed" []).mpr ⟨rfl, ?_, ?_⟩⟩
  · intro node hnode
    rw [List.mem_singleton.mp hnode]
  · intro node hnode
    rw [List.mem_singleton.mp hnode]
    exact fun _ => trivial

/-- Renaming the second node of a chain loses the edge and the retry policy. -/
theorem not_editor_preserves :
    chain_tables.Reachable any_services ∧
      ∃ workflow,
        (chain_tables.get_workflow 0 1).bind (fun found => page_definition found.2)
          = some (.obj workflow) ∧
        ¬ Preserved any_services.pydantic "second" chain_definition
          (Editor.handle_update_config { workflow } "second" "renamed" []) := by
  refine ⟨Transition.Reaches.single
    (.call 1 (.create_workflow "two_jobs" "" chain_definition 0 0 0)) trivial rfl,
    chain_definition.in_page, ?_, ?_⟩
  · have hget : chain_tables.get_workflow 0 1
        = some ({ id := 0, owner_api_key_id := 1, name := "two_jobs", description := some ""
                  created_at := 0, updated_at := 0 }, chain_tables.workflow_versions) := rfl
    have hpage : page_definition chain_tables.workflow_versions
        = some chain_definition.model_dump.in_browser := rfl
    rw [hget, Option.bind_some, hpage, model_dump_in_browser]
  · intro hpreserved
    have hnodup : chain_definition.node_ids.Nodup := by decide
    obtain ⟨hedges, -⟩ :=
      (preserved_iff any_services.pydantic hnodup "second" "renamed" []).mp hpreserved
    cases hedges

end EventFlow
