/-
The ids that the editor gives to the nodes of a definition.

The load step of `ReactFlowEditor` replaces an id that is missing, or that an
earlier node has, by `node_auto_` and the position of the node. It looks up what
is taken only for the id of the definition, not for the one it makes: a node can
be given the id of an earlier node, and it can be given the id of a later one,
which is then found taken and replaced as well. Both happen exactly if a node
that needs an id stands at a position whose `node_auto_` id is in the definition
([`load_ids_repaired_iff`]).
-/
import EventFlow.EditorRuns
import EventFlow.Library.NameRepair
import EventFlow.Library.Numerals

set_option autoImplicit false

namespace EventFlow

open NameRepair

/-- The id made from a position. -/
def node_auto (index : ℕ) : String := s!"node_auto_{index}"

theorem node_auto_injective : Function.Injective node_auto := by
  intro i j h
  have hlist := congrArg String.toList h
  unfold node_auto at hlist
  simp only [toString, String.toList_append, Nat.toList_repr] at hlist
  exact Numerals.toDigits_ten_injective (List.append_cancel_left hlist)

/-- The loop of the editor is a repair of the ids. -/
theorem load_nodes_repair (items : List Json) (index : ℕ) (seen_ids : List String) :
    (load_nodes index seen_ids items).map FlowNode.id
      = repair node_auto "" index seen_ids (items.map fun n => n.prop_str "id") := by
  induction items generalizing index seen_ids with
  | nil => rfl
  | cons n rest ih =>
      rw [load_nodes, List.map_cons, List.map_cons, repair]
      dsimp only
      rw [ih]
      rfl

/-- What the ids on the canvas are to be: none is empty, no two are the same, and
a node whose id is given and new keeps it. -/
structure IdsRepaired (workflow : JsonObject) : Prop where
  nonempty : ∀ id ∈ (load workflow).node_ids, id ≠ ""
  distinct : (load workflow).node_ids.Nodup
  keeps : ∀ i id, (flow_node_ids workflow)[i]? = some id → id ≠ "" →
    id ∉ (flow_node_ids workflow).take i → (load workflow).node_ids[i]? = some id

/-- The node at the position has no id, or that of an earlier node. -/
def NeedsId (workflow : JsonObject) (i : ℕ) : Prop :=
  ∃ id, (flow_node_ids workflow)[i]? = some id ∧
    (id = "" ∨ id ∈ (flow_node_ids workflow).take i)

/-- **When the repair of the ids works**: for no node that needs an id is the one it is
given an id of the definition. The load step is the name repair of
`Library/NameRepair.lean` at the name `node_auto_` with the position, which is never empty
and never the same for two positions. So what has to be shown here is only that
`load_nodes` is this repair. -/
theorem load_ids_repaired_iff (workflow : JsonObject) :
    IdsRepaired workflow ↔
      ∀ i, NeedsId workflow i → node_auto i ∉ flow_node_ids workflow := by
  have hids : (load workflow).node_ids = repair node_auto "" 0 [] (flow_node_ids workflow) :=
    load_nodes_repair (elements workflow "nodes") 0 []
  have hrepair := repair_iff (flow_node_ids workflow) node_auto_injective node_auto_ne
  rw [← hids] at hrepair
  constructor
  · intro h
    exact hrepair.mp ⟨h.distinct, h.keeps⟩
  · intro h
    obtain ⟨hdistinct, hkeeps⟩ := hrepair.mpr h
    exact ⟨load_nodes_nonempty, hdistinct, hkeeps⟩

/-- The second node has no id, and the first has the one it is given. -/
def taken_auto_id : JsonObject :=
  [("nodes", .arr [.obj [("id", .str "node_auto_1")], .obj []])]

theorem load_ids_not_repaired :
    (load taken_auto_id).node_ids = ["node_auto_1", "node_auto_1"] ∧
      ¬ IdsRepaired taken_auto_id := by
  have hids : (load taken_auto_id).node_ids = ["node_auto_1", "node_auto_1"] := by decide +kernel
  refine ⟨hids, ?_⟩
  intro h
  have hdistinct := h.distinct
  rw [hids] at hdistinct
  revert hdistinct
  decide

end EventFlow
