/-
Runs of the editor: which sequences of user operations keep the definition well
formed.

The definitions that count are those passed to `onChange`, and of each operation
the last one. As long as the canvas is good (distinct ids, no dangling edge, no
cycle), what is written from it is well formed and is loaded again with the same
ids and edges, so it is enough to follow the canvas. Two operations can break
it. Deleting a node that has edges ends in `onNodesChange`, which writes the
edges of the render: those at the node dangle. And a node that is deleted stays
selected, so that `addNode` makes it the parent of the new node.
[`Editor.step_good`] is that nothing else breaks it, [`Editor.step_bad`] that
these two do.
-/
import EventFlow.CycleGuard
import EventFlow.Library.Selection

set_option autoImplicit false

namespace EventFlow

/-! ## Well-formed definitions -/

/-- The node ids of a definition. -/
def flow_node_ids (workflow : JsonObject) : List String :=
  (elements workflow "nodes").map fun n => n.prop_str "id"

/-- The edges of a definition, given with `from` and `to`. -/
def flow_edge_pairs (workflow : JsonObject) : List (String × String) :=
  (elements workflow "edges").map fun e => (e.prop_str "from", e.prop_str "to")

/-- Distinct node ids, only edges between existing nodes, and no directed
cycle. -/
structure FlowWellFormed (workflow : JsonObject) : Prop where
  nodup : (flow_node_ids workflow).Nodup
  ends : ∀ e ∈ flow_edge_pairs workflow,
    e.1 ∈ flow_node_ids workflow ∧ e.2 ∈ flow_node_ids workflow
  acyclic : EdgeGraph.Acyclic (flow_edge_pairs workflow)

def Canvas.node_ids (c : Canvas) : List String := c.nodes.map FlowNode.id

/-- The same of the canvas, where no id is empty. -/
structure Canvas.Good (c : Canvas) : Prop where
  nodup : c.node_ids.Nodup
  nonempty : ∀ id ∈ c.node_ids, id ≠ ""
  ends : ∀ e ∈ flow_pairs c.edges, e.1 ∈ c.node_ids ∧ e.2 ∈ c.node_ids
  acyclic : EdgeGraph.Acyclic (flow_pairs c.edges)

/-! ## Loading -/

theorem node_auto_ne (index : ℕ) : s!"node_auto_{index}" ≠ "" := by
  intro h
  have hlen := congrArg String.length h
  simp at hlen

theorem node_suffix_ne (suffix : String) : s!"node_{suffix}" ≠ "" := by
  intro h
  have hlen := congrArg String.length h
  simp at hlen
  exact absurd hlen.1 (by decide)

/-- No id on the canvas is empty. -/
theorem load_nodes_nonempty {items : List Json} {index : ℕ} {seen_ids : List String} :
    ∀ id ∈ (load_nodes index seen_ids items).map FlowNode.id, id ≠ "" := by
  induction items generalizing index seen_ids with
  | nil =>
      intro id hid
      cases hid
  | cons n rest ih =>
      intro id hid
      rw [load_nodes, List.map_cons] at hid
      rcases List.mem_cons.mp hid with rfl | hid
      · dsimp only
        split
        · exact node_auto_ne index
        · rename_i hown
          exact (not_or.mp hown).1
      · exact ih id hid

/-- An id of the definition that is not empty is taken by some node. -/
theorem mem_load_nodes {items : List Json} {index : ℕ} {seen_ids : List String} {id : String}
    (hid : id ∈ items.map fun n => n.prop_str "id") (hne : id ≠ "") :
    id ∈ seen_ids ∨ id ∈ (load_nodes index seen_ids items).map FlowNode.id := by
  -- over the nodes, with the ids that are taken by then
  induction items generalizing index seen_ids with
  | nil => cases hid
  | cons n rest ih =>
      rw [load_nodes, List.map_cons]
      dsimp only
      rcases List.mem_cons.mp hid with rfl | hid
      · by_cases hseen : n.prop_str "id" ∈ seen_ids
        · exact Or.inl hseen
        · right
          rw [if_neg (not_or.mpr ⟨hne, hseen⟩)]
          exact List.mem_cons_self
      · rcases ih hid with hseen | hmem
        · rcases List.mem_cons.mp hseen with heq | hseen
          · exact Or.inr (heq ▸ List.mem_cons_self)
          · exact Or.inl hseen
        · exact Or.inr (List.mem_cons_of_mem _ hmem)

/-- Distinct ids that are not empty are kept. -/
theorem load_nodes_ids {items : List Json} {index : ℕ} {seen_ids : List String}
    (hnodup : (items.map fun n => n.prop_str "id").Nodup)
    (hne : ∀ id ∈ items.map fun n => n.prop_str "id", id ≠ "" ∧ id ∉ seen_ids) :
    (load_nodes index seen_ids items).map FlowNode.id
      = items.map fun n => n.prop_str "id" := by
  induction items generalizing index seen_ids with
  | nil => rfl
  | cons n rest ih =>
      rw [List.map_cons, List.nodup_cons] at hnodup
      rw [List.map_cons, List.forall_mem_cons] at hne
      rw [load_nodes, List.map_cons, List.map_cons, if_neg (not_or.mpr hne.1), ih hnodup.2]
      intro id hid
      refine ⟨(hne.2 id hid).1, ?_⟩
      intro hmem
      rcases List.mem_cons.mp hmem with rfl | hmem
      · exact hnodup.1 hid
      · exact (hne.2 id hid).2 hmem

/-- An edge that is given with `from` and `to` goes between them, if both are
there. -/
theorem load_edge_pair {item : Json} {e : FlowEdge} (hsource : item.prop_str "source" = "")
    (htarget : item.prop_str "target" = "") (h : load_edge item = some e) :
    (e.source, e.target) = (item.prop_str "from", item.prop_str "to") := by
  have hor : ∀ a, js_or a "" = a := by
    intro a
    unfold js_or
    split
    · rename_i ha
      exact ha.symm
    · rfl
  unfold load_edge at h
  rw [hsource, htarget, hor, hor] at h
  dsimp only at h
  split at h
  · cases h
  · cases h
    rfl

/-- **The canvas of a well-formed definition** is good, unless the editor gives a node an
id that is taken. Nodes keep their ids and edges their ends, so the graph is the same; it
is asked that the ids are distinct after the load step, because the step can give a node
an id that another one has. -/
theorem Canvas.Good.load {workflow : JsonObject} (h : FlowWellFormed workflow)
    (hends : ∀ item ∈ elements workflow "edges",
      item.prop_str "source" = "" ∧ item.prop_str "target" = "")
    (hnodup : (load workflow).node_ids.Nodup) : (load workflow).Good := by
  have hpair : ∀ e ∈ (EventFlow.load workflow).edges,
      (e.source, e.target) ∈ flow_edge_pairs workflow ∧ e.source ≠ "" ∧ e.target ≠ "" := by
    intro e he
    obtain ⟨item, hitem, hload⟩ := List.mem_filterMap.mp he
    have hpair := load_edge_pair (hends item hitem).1 (hends item hitem).2 hload
    refine ⟨hpair ▸ List.mem_map_of_mem hitem, ?_⟩
    unfold load_edge at hload
    dsimp only at hload
    split at hload
    · cases hload
    · rename_i hne
      cases hload
      exact not_or.mp hne
  -- an edge that is loaded has no empty end, so its ends keep their ids
  have hid : ∀ id ∈ flow_node_ids workflow, id ≠ "" →
      id ∈ (EventFlow.load workflow).node_ids := by
    intro id hmem hne
    exact (mem_load_nodes hmem hne).resolve_left List.not_mem_nil
  refine ⟨hnodup, load_nodes_nonempty, ?_, ?_⟩
  · intro e he
    obtain ⟨edge, hedge, rfl⟩ := List.mem_map.mp he
    obtain ⟨hmem, hsource, htarget⟩ := hpair edge hedge
    obtain ⟨hs, ht⟩ := h.ends _ hmem
    exact ⟨hid _ hs hsource, hid _ ht htarget⟩
  · apply h.acyclic.anti
    intro e he
    obtain ⟨edge, hedge, rfl⟩ := List.mem_map.mp he
    exact (hpair edge hedge).1

/-! ## Writing -/

section Written

variable (workflow : JsonObject) (nodes : List FlowNode) (edges : List FlowEdge)

theorem flow_node_ids_notify_change :
    flow_node_ids (notify_change workflow nodes edges) = nodes.map FlowNode.id := by
  unfold flow_node_ids
  rw [elements_notify_change_nodes, List.map_map]
  rfl

theorem flow_edge_pairs_notify_change :
    flow_edge_pairs (notify_change workflow nodes edges) = flow_pairs edges := by
  unfold flow_edge_pairs flow_pairs
  rw [elements_notify_change_edges, List.map_map]
  rfl

/-- What is written from a good canvas is well formed, and nothing else is but
for empty ids. -/
theorem flowWellFormed_notify_change_iff :
    FlowWellFormed (notify_change workflow nodes edges) ↔
      (nodes.map FlowNode.id).Nodup ∧
        (∀ e ∈ flow_pairs edges, e.1 ∈ nodes.map FlowNode.id ∧ e.2 ∈ nodes.map FlowNode.id) ∧
        EdgeGraph.Acyclic (flow_pairs edges) := by
  constructor
  · rintro ⟨hnodup, hends, hacyclic⟩
    rw [flow_node_ids_notify_change] at hnodup hends
    rw [flow_edge_pairs_notify_change] at hends hacyclic
    exact ⟨hnodup, hends, hacyclic⟩
  · rintro ⟨hnodup, hends, hacyclic⟩
    constructor
    · rw [flow_node_ids_notify_change]
      exact hnodup
    · rw [flow_node_ids_notify_change, flow_edge_pairs_notify_change]
      exact hends
    · rw [flow_edge_pairs_notify_change]
      exact hacyclic

variable {nodes edges}

theorem Canvas.Good.wellFormed (h : Canvas.Good { nodes, edges }) :
    FlowWellFormed (notify_change workflow nodes edges) :=
  (flowWellFormed_notify_change_iff workflow nodes edges).mpr ⟨h.nodup, h.ends, h.acyclic⟩

/-- A good canvas is good again after it is written and loaded. -/
theorem Canvas.Good.reload (h : Canvas.Good { nodes, edges }) :
    Canvas.Good (EventFlow.load (notify_change workflow nodes edges)) := by
  apply Canvas.Good.load (h.wellFormed workflow)
  · intro item hitem
    rw [elements_notify_change_edges] at hitem
    obtain ⟨e, -, rfl⟩ := List.mem_map.mp hitem
    obtain ⟨id, source, target, label⟩ := e
    cases label with
    | none => exact ⟨rfl, rfl⟩
    | some label => exact ⟨rfl, rfl⟩
  · have hids := flow_node_ids_notify_change workflow nodes edges
    unfold flow_node_ids at hids
    unfold Canvas.node_ids EventFlow.load
    dsimp only
    rw [load_nodes_ids, hids]
    · exact h.nodup
    · rw [hids]
      exact h.nodup
    · rw [hids]
      intro id hid
      exact ⟨h.nonempty id hid, List.not_mem_nil⟩

end Written

/-! ## Operations -/

/-- What React Flow and the palette offer: a new node gets an id that is not
taken, and a connection goes between nodes of the canvas. -/
def Editor.Offered (e : Editor) : EditorOp → Prop
  | .add_node _ suffix => s!"node_{suffix}" ∉ e.canvas.node_ids
  | .connect source target => source ∈ e.canvas.node_ids ∧ target ∈ e.canvas.node_ids
  | _ => True

/-- A node is added while the selected node, if there is one, is on the canvas;
and nodes are deleted that have no edges. -/
def Editor.Careful (e : Editor) : EditorOp → Prop
  | .add_node _ _ => ∀ id ∈ e.selected_node_id, id ≠ "" → id ∈ e.canvas.node_ids
  | .delete_nodes ids => e.incident ids = []
  | _ => True

/-- The canvas is good, and what was passed on last is well formed. -/
structure Editor.Inv (e : Editor) : Prop where
  good : e.canvas.Good
  changed : ∀ workflow ∈ e.changed, FlowWellFormed workflow

section Operations

variable {R : ReactFlow} {e : Editor}

theorem Editor.step_of_call {op : EditorOp} {workflow : JsonObject}
    (h : (e.calls R op).getLast? = some workflow) :
    e.step R op
      = { workflow, selected_node_id := e.selected_after op, changed := some workflow } := by
  unfold Editor.step
  rw [h]

theorem Editor.step_of_no_call {op : EditorOp} (h : (e.calls R op).getLast? = none) :
    e.step R op = { e with selected_node_id := e.selected_after op } := by
  unfold Editor.step
  rw [h]

/-- An operation that writes a good canvas. -/
theorem Editor.Inv.of_call {op : EditorOp} {nodes : List FlowNode} {edges : List FlowEdge}
    (h : (e.calls R op).getLast? = some (notify_change e.workflow nodes edges))
    (hgood : Canvas.Good { nodes, edges }) : (e.step R op).Inv := by
  rw [Editor.step_of_call h]
  refine ⟨hgood.reload e.workflow, ?_⟩
  intro workflow hworkflow
  cases hworkflow
  exact hgood.wellFormed e.workflow

/-- An operation that writes nothing. -/
theorem Editor.Inv.of_no_call {op : EditorOp} (h : (e.calls R op).getLast? = none)
    (hinv : e.Inv) : (e.step R op).Inv := by
  rw [Editor.step_of_no_call h]
  exact ⟨hinv.good, hinv.changed⟩

theorem flow_pairs_concat (edges : List FlowEdge) (id source target : String) :
    flow_pairs (edges ++ [{ id := id, source, target }])
      = flow_pairs edges ++ [(source, target)] := by
  unfold flow_pairs
  rw [List.map_append, List.map_singleton]

/-- One more edge between nodes that does not close a cycle. -/
theorem Canvas.Good.add_edge {c : Canvas} (h : c.Good) {id source target : String}
    (hsource : source ∈ c.node_ids) (htarget : target ∈ c.node_ids)
    (hcycle : ¬ (source = target ∨ EdgeGraph.Walk (flow_pairs c.edges) target source)) :
    Canvas.Good { c with edges := c.edges ++ [{ id := id, source, target }] } := by
  refine { h with ends := ?_, acyclic := ?_ }
  · show ∀ e ∈ flow_pairs (c.edges ++ [{ id := id, source, target }]), _
    rw [flow_pairs_concat]
    intro e he
    rcases List.mem_append.mp he with hold | hnew
    · exact h.ends e hold
    · cases List.mem_singleton.mp hnew
      exact ⟨hsource, htarget⟩
  · show EdgeGraph.Acyclic (flow_pairs (c.edges ++ [{ id := id, source, target }]))
    rw [flow_pairs_concat]
    exact h.acyclic.concat_iff.mpr hcycle

theorem Canvas.node_ids_concat (c : Canvas) (n : FlowNode) :
    Canvas.node_ids { c with nodes := c.nodes ++ [n] } = c.node_ids ++ [n.id] := by
  unfold Canvas.node_ids
  rw [List.map_append, List.map_singleton]

/-- One more node. -/
theorem Canvas.Good.add_node {c : Canvas} (h : c.Good) {n : FlowNode} (hne : n.id ≠ "")
    (hnew : n.id ∉ c.node_ids) : Canvas.Good { c with nodes := c.nodes ++ [n] } := by
  have hids := c.node_ids_concat n
  refine ⟨?_, ?_, ?_, h.acyclic⟩
  · exact Selection.nodup_key_concat h.nodup hnew
  · rw [hids]
    intro id hid
    rcases List.mem_append.mp hid with hold | hlast
    · exact h.nonempty id hold
    · rw [List.mem_singleton.mp hlast]
      exact hne
  · rw [hids]
    intro e he
    obtain ⟨h₁, h₂⟩ := h.ends e he
    exact ⟨List.mem_append_left _ h₁, List.mem_append_left _ h₂⟩

/-- Fewer edges. -/
theorem Canvas.Good.filter_edges {c : Canvas} (h : c.Good) (p : FlowEdge → Bool) :
    Canvas.Good { c with edges := c.edges.filter p } := by
  have hsub : flow_pairs (c.edges.filter p) ⊆ flow_pairs c.edges :=
    List.map_subset _ (List.filter_subset_self _)
  exact { h with ends := fun e he => h.ends e (hsub he), acyclic := h.acyclic.anti hsub }

/-- Fewer nodes, none of them with an edge. -/
theorem Canvas.Good.filter_nodes {c : Canvas} (h : c.Good) {removed : List String}
    (hfree : ∀ e ∈ c.edges, e.source ∉ removed ∧ e.target ∉ removed) :
    Canvas.Good { c with nodes := c.nodes.filter fun n => decide (n.id ∉ removed) } := by
  have hkept : ∀ id ∈ c.node_ids, id ∉ removed →
      id ∈ (c.nodes.filter fun n => decide (n.id ∉ removed)).map FlowNode.id := by
    intro id hid hnot
    obtain ⟨n, hn, rfl⟩ := List.mem_map.mp hid
    exact List.mem_map_of_mem (List.mem_filter.mpr ⟨hn, decide_eq_true hnot⟩)
  refine ⟨Selection.nodup_key_filter h.nodup _, ?_, ?_, h.acyclic⟩
  · intro id hid
    obtain ⟨n, hn, rfl⟩ := List.mem_map.mp hid
    exact h.nonempty _ (List.mem_map_of_mem (List.mem_of_mem_filter hn))
  · intro e he
    obtain ⟨h₁, h₂⟩ := h.ends e he
    obtain ⟨edge, hedge, rfl⟩ := List.mem_map.mp he
    exact ⟨hkept _ h₁ (hfree edge hedge).1, hkept _ h₂ (hfree edge hedge).2⟩

/-- The parent of a new node is on the canvas. -/
theorem Editor.mem_of_parent_id {type suffix id : String}
    (hcareful : e.Careful (.add_node type suffix)) (h : e.parent_id = some id) :
    id ∈ e.canvas.node_ids := by
  unfold Editor.parent_id at h
  split at h
  · rename_i selected hselected
    cases h
    obtain ⟨hmem, hne⟩ := Option.filter_eq_some_iff.mp hselected
    exact hcareful id hmem (of_decide_eq_true hne)
  · obtain ⟨n, hn, rfl⟩ := Option.map_eq_some_iff.mp h
    exact List.mem_map_of_mem (List.mem_of_getLast? hn)

/-- Nodes without edges. -/
theorem Editor.not_incident {ids : List String} (h : e.incident ids = []) {edge : FlowEdge}
    (hedge : edge ∈ e.canvas.edges) : ¬ (edge.source ∈ ids ∨ edge.target ∈ ids) := by
  intro hincident
  have hmem : edge ∈ e.incident ids := List.mem_filter.mpr ⟨hedge, decide_eq_true hincident⟩
  rw [h] at hmem
  cases hmem

/-- A new node below a node of the canvas. -/
theorem Editor.Inv.add_node (hinv : e.Inv) {type suffix : String}
    (hoffered : e.Offered (.add_node type suffix))
    (hcareful : e.Careful (.add_node type suffix)) : (e.step R (.add_node type suffix)).Inv := by
  have hid : (new_node type s!"node_{suffix}").id ≠ "" := node_suffix_ne suffix
  have hadded := hinv.good.add_node hid hoffered
  have hids := e.canvas.node_ids_concat (new_node type s!"node_{suffix}")
  apply Editor.Inv.of_call rfl
  split
  · rename_i parent hparent
    have hmem := Editor.mem_of_parent_id hcareful (Option.filter_eq_some_iff.mp hparent).1
    apply hadded.add_edge
    · rw [hids]
      exact List.mem_append_left _ hmem
    · rw [hids]
      exact List.mem_append_right _ (List.mem_singleton_self _)
    · -- no edge leaves the new node
      rintro (rfl | hwalk)
      · exact hoffered hmem
      · obtain ⟨z, hz⟩ := hwalk.exists_edge
        exact hoffered (hinv.good.ends _ hz).1
  · exact hadded

/-- A connection that the guard lets through closes no cycle. -/
theorem Editor.Inv.connect (hR : R.Laws) (hinv : e.Inv) {source target : String}
    (hoffered : e.Offered (.connect source target)) :
    (e.step R (.connect source target)).Inv := by
  cases hcall : e.on_connect R source target with
  | none => exact Editor.Inv.of_no_call (by rw [Editor.calls, hcall]; rfl) hinv
  | some workflow =>
      have hwritten := hcall
      unfold Editor.on_connect at hwritten
      split at hwritten
      · rename_i hguard
        cases hwritten
        apply Editor.Inv.of_call (by rw [Editor.calls, hcall]; rfl)
        rcases hR.add_edge source target e.canvas.edges with hsame | ⟨id, hadded⟩
        · rw [hsame]
          exact hinv.good
        · rw [hadded]
          apply hinv.good.add_edge hoffered.1 hoffered.2
          rw [← creates_cycle_iff hguard]
          exact Bool.false_ne_true
      · cases hwritten

/-- **An operation done with care keeps the invariant.** Most operations take nodes or
edges away, or rename; an edge is added by `connect`, which the cycle guard allows only if
it closes no cycle, and by `addNode`, from a node that is on the canvas to one that is
new. -/
theorem Editor.step_good (hR : R.Laws) (hinv : e.Inv) {op : EditorOp} (hoffered : e.Offered op)
    (hcareful : e.Careful op) : (e.step R op).Inv := by
  have hgood := hinv.good
  cases op with
  | add_node type suffix => exact hinv.add_node hoffered hcareful
  | connect source target => exact hinv.connect hR hoffered
  | delete_edges ids =>
      refine Editor.Inv.of_call rfl ?_
      rw [hR.apply_edge_changes]
      exact hgood.filter_edges _
  | delete_nodes ids =>
      refine Editor.Inv.of_call List.getLast?_concat ?_
      rw [hR.apply_node_changes]
      apply hgood.filter_nodes
      intro edge hedge
      exact not_or.mp (Editor.not_incident hcareful hedge)
  | update_config node_id name config =>
      -- an edit of a node changes neither ids nor edges
      refine Editor.Inv.of_call rfl ?_
      have hids : Canvas.node_ids
          { e.canvas with
            nodes := e.canvas.nodes.map fun n =>
              if n.id = node_id then { n with name := some (.str name), config := .obj config }
              else n } = e.canvas.node_ids :=
        Selection.map_key_update fun _ _ _ => rfl
      constructor
      · rw [hids]
        exact hgood.nodup
      · rw [hids]
        exact hgood.nonempty
      · rw [hids]
        exact hgood.ends
      · exact hgood.acyclic
  | select node_id => exact Editor.Inv.of_no_call rfl hinv

/-- A new node below a node that is gone. The node that is still selected becomes the
source of an edge, and it is neither on the canvas nor the new node; so the edge dangles.
-/
theorem Editor.add_node_bad {type suffix : String}
    (hcareless : ¬ e.Careful (.add_node type suffix)) :
    ∃ workflow ∈ (e.step R (.add_node type suffix)).changed, ¬ FlowWellFormed workflow := by
  obtain ⟨id, hid, hne, hgone⟩ : ∃ id ∈ e.selected_node_id, id ≠ "" ∧
      id ∉ e.canvas.node_ids := by
    by_contra hno
    apply hcareless
    intro id hid hne
    by_contra hgone
    exact hno ⟨id, hid, hne, hgone⟩
  have hparent : e.parent_id.filter (· ≠ "") = some id := by
    have hselected : e.selected_node_id.filter (· ≠ "") = some id :=
      Option.filter_eq_some_iff.mpr ⟨hid, decide_eq_true hne⟩
    unfold Editor.parent_id
    rw [hselected]
    exact Option.filter_eq_some_iff.mpr ⟨rfl, decide_eq_true hne⟩
  refine ⟨e.add_node type s!"node_{suffix}", by rw [Editor.step_of_call rfl]; rfl, ?_⟩
  unfold Editor.add_node
  rw [hparent]
  dsimp only
  rw [flowWellFormed_notify_change_iff, flow_pairs_concat]
  rintro ⟨-, hends, hacyclic⟩
  have hnew : (id, s!"node_{suffix}")
      ∈ flow_pairs e.canvas.edges ++ [(id, s!"node_{suffix}")] :=
    List.mem_append_right _ (List.mem_singleton_self _)
  -- the parent is not there, unless it is the new node itself
  have hmem := (hends _ hnew).1
  rw [List.map_append] at hmem
  rcases List.mem_append.mp hmem with hold | hlast
  · exact hgone hold
  · rw [List.map_singleton, List.mem_singleton] at hlast
    have hself : id = s!"node_{suffix}" := hlast
    rw [← hself] at hnew hacyclic
    exact hacyclic id (EdgeGraph.Walk.single hnew)

/-- The handler that is called last has the edges of the render. -/
theorem Editor.delete_nodes_bad (hR : R.Laws) {ids : List String}
    (hcareless : ¬ e.Careful (.delete_nodes ids)) :
    ∃ workflow ∈ (e.step R (.delete_nodes ids)).changed, ¬ FlowWellFormed workflow := by
  have hcall : (e.calls R (.delete_nodes ids)).getLast? = some (e.on_nodes_change R ids) :=
    List.getLast?_concat
  refine ⟨e.on_nodes_change R ids, by rw [Editor.step_of_call hcall]; rfl, ?_⟩
  unfold Editor.on_nodes_change
  rw [flowWellFormed_notify_change_iff, hR.apply_node_changes]
  rintro ⟨-, hends, -⟩
  obtain ⟨edge, hedge⟩ := List.exists_mem_of_ne_nil _ hcareless
  obtain ⟨hmem, hincident⟩ := List.mem_filter.mp hedge
  obtain ⟨hsource, htarget⟩ := hends _ (List.mem_map_of_mem hmem)
  -- what is left of the nodes has none of the removed ids
  have hleft : ∀ id ∈ (e.canvas.nodes.filter fun n => decide (n.id ∉ ids)).map FlowNode.id,
      id ∉ ids := by
    intro id hid
    obtain ⟨n, hn, rfl⟩ := List.mem_map.mp hid
    exact of_decide_eq_true (List.mem_filter.mp hn).2
  rcases of_decide_eq_true hincident with h | h
  · exact hleft _ hsource h
  · exact hleft _ htarget h

/-- **An operation done without care breaks the definition.** Only two operations ask for
care, and each breaks the definition by an edge that dangles. -/
theorem Editor.step_bad (hR : R.Laws) {op : EditorOp} (hcareless : ¬ e.Careful op) :
    ∃ workflow ∈ (e.step R op).changed, ¬ FlowWellFormed workflow := by
  cases op with
  | add_node type suffix => exact Editor.add_node_bad hcareless
  | delete_nodes ids => exact Editor.delete_nodes_bad hR hcareless
  | connect source target => exact absurd trivial hcareless
  | delete_edges ids => exact absurd trivial hcareless
  | update_config node_id name config => exact absurd trivial hcareless
  | select node_id => exact absurd trivial hcareless

end Operations

/-! ## Runs -/

/-- `P` holds of every operation of a run and the editor before it. -/
def Editor.Along (R : ReactFlow) (P : Editor → EditorOp → Prop) :
    Editor → List EditorOp → Prop
  | _, [] => True
  | e, op :: ops => P e op ∧ Editor.Along R P (e.step R op) ops

/-- What the operation has passed to `onChange` last is well formed. -/
def Editor.PassesWellFormed (R : ReactFlow) (e : Editor) (op : EditorOp) : Prop :=
  ∀ workflow ∈ (e.step R op).changed, FlowWellFormed workflow

/-- Along a run the definitions stay well formed exactly as long as every
operation is done with care. -/
theorem Editor.along_iff {R : ReactFlow} (hR : R.Laws) {e : Editor} (hinv : e.Inv)
    {ops : List EditorOp} (hoffered : Editor.Along R Editor.Offered e ops) :
    Editor.Along R (Editor.PassesWellFormed R) e ops ↔ Editor.Along R Editor.Careful e ops := by
  induction ops generalizing e with
  | nil => exact Iff.rfl
  | cons op ops ih =>
      obtain ⟨hop, hrest⟩ := hoffered
      unfold Editor.Along
      -- the first operation without care is where it breaks
      by_cases hcareful : e.Careful op
      · have hnext := Editor.step_good hR hinv hop hcareful
        rw [ih hnext hrest, and_iff_right hcareful]
        exact and_iff_right hnext.changed
      · obtain ⟨workflow, hworkflow, hbad⟩ := Editor.step_bad hR hcareful
        constructor
        · rintro ⟨hpasses, -⟩
          exact absurd (hpasses workflow hworkflow) hbad
        · rintro ⟨hc, -⟩
          exact absurd hc hcareful

/-- **When editing keeps the graph well formed.** From a well-formed definition whose
edges are given with `from` and `to`, and whose ids are distinct on the canvas too, every
definition that a run of operations passes on is well formed exactly if, in that run, no
node with edges is deleted and no node is added while a deleted node is selected. By
induction on the operations. One that is done with care keeps the canvas good, so
everything it passes on is well formed and the next one starts from a good canvas
([`Editor.step_good`]); one that is not breaks the definition there and then
([`Editor.step_bad`]), whatever comes after it. -/
theorem editing_keeps_wellFormed_iff {R : ReactFlow} (hR : R.Laws) {workflow : JsonObject}
    (hstart : FlowWellFormed workflow)
    (hends : ∀ item ∈ elements workflow "edges",
      item.prop_str "source" = "" ∧ item.prop_str "target" = "")
    (hloaded : (load workflow).node_ids.Nodup) {ops : List EditorOp}
    (hoffered : Editor.Along R Editor.Offered { workflow } ops) :
    Editor.Along R (Editor.PassesWellFormed R) { workflow } ops ↔
      Editor.Along R Editor.Careful { workflow } ops := by
  have hinv : Editor.Inv { workflow } := by
    refine ⟨Canvas.Good.load hstart hends hloaded, ?_⟩
    intro changed hchanged
    cases hchanged
  exact Editor.along_iff hR hinv hoffered

/-- Two nodes and an edge between them. -/
def two_node_flow : JsonObject :=
  [("name", .str "flow"),
    ("nodes", .arr
      [.obj [("id", .str "a"), ("type", .str "delay"), ("name", .str ""), ("config", .obj [])],
        .obj [("id", .str "b"), ("type", .str "delay"), ("name", .str ""), ("config", .obj [])]]),
    ("edges", .arr [.obj [("from", .str "a"), ("to", .str "b")]])]

theorem two_node_flow_wellFormed : FlowWellFormed two_node_flow where
  nodup := by decide
  ends := by decide
  acyclic := by
    apply EdgeGraph.acyclic_of_rank fun id => if id = "b" then 1 else 0
    decide

/-- The edge is deleted first, then the node. -/
theorem editing_keeps_wellFormed_iff_two_nodes :
    Editor.Along xyflow_react (Editor.PassesWellFormed xyflow_react) { workflow := two_node_flow }
      [.delete_edges ["a-b"], .delete_nodes ["b"]] := by
  have hoffered : Editor.Along xyflow_react Editor.Offered { workflow := two_node_flow }
      [.delete_edges ["a-b"], .delete_nodes ["b"]] := ⟨trivial, trivial, trivial⟩
  apply (editing_keeps_wellFormed_iff xyflow_react_laws two_node_flow_wellFormed
    (by decide) (by decide) hoffered).mpr
  exact ⟨trivial, rfl, trivial⟩

/-- Deleting a node with an edge passes on the edge without the node. -/
theorem not_editing_keeps_wellFormed :
    FlowWellFormed two_node_flow ∧ (load two_node_flow).node_ids.Nodup ∧
      Editor.Along xyflow_react Editor.Offered { workflow := two_node_flow }
        [.delete_nodes ["b"]] ∧
      ¬ Editor.Along xyflow_react (Editor.PassesWellFormed xyflow_react)
        { workflow := two_node_flow } [.delete_nodes ["b"]] := by
  refine ⟨two_node_flow_wellFormed, by decide, ⟨trivial, trivial⟩, ?_⟩
  rintro ⟨hpasses, -⟩
  have hcareless : ¬ Editor.Careful { workflow := two_node_flow } (.delete_nodes ["b"]) := by
    intro h
    cases h
  obtain ⟨workflow, hworkflow, hbad⟩ := Editor.step_bad xyflow_react_laws hcareless
  exact hbad (hpasses workflow hworkflow)

end EventFlow
