/-
How a node addresses the outputs of its parents.

The worker puts the outputs of the parents into a dict under their node ids. A
condition reads one of them with a path in its expression, and a transform with
the `source` of a rule; both paths are `upstream.`, the id of the parent, a dot
and a key. The validator admits every id that is not empty. But a path is split
at its dots, and in an expression it is made of word characters and dots. So an id
with a dot is taken for several steps, and in an expression an id with another
character ends the path.
-/
import EventFlow.ConditionGrammar
import EventFlow.Safety

set_option autoImplicit false

namespace EventFlow

open Backtracking

/-- The path of a key in the output of `p`. -/
def upstream_path (p k : String) : List Char :=
  "upstream".toList ++ '.' :: (p.toList ++ '.' :: k.toList)

/-- Node `n` of an accepted definition has the parent `p`, whose committed output
has `v` under the key `k` of word characters. -/
structure UpstreamValue (u : PyStr.Unicode) (definition : WorkflowDefinition) (n : Node)
    (nodes : Table String NodeExecution) (p k : String) (v : Json) : Prop where
  accepted : Accepted default_registry definition
  node : n ∈ definition.nodes
  parent : p ∈ definition.parent_ids n.id
  stored : p ∈ nodes.keys
  committed : ∃ output, (nodes.row p).output_payload = some output ∧ output.lookup k = some v
  key_word : ∀ c ∈ k.toList, u.word c = true

/-- An expression compares what is at `path` with `literal`, as it is written. -/
def WrittenComparison (expression : String) (path : List Char) (operator : Operator)
    (literal : List Char) : Prop :=
  ∃ front mid inner back,
    (∀ part ∈ [front, mid, inner, back], ∀ c ∈ part, PyStr.isspace c = true) ∧
    Solid PyStr.isspace literal ∧ (∀ c ∈ literal.head?, c ≠ '=') ∧ '\n' ∉ literal ++ back ∧
    expression.toList = expression_text front path mid operator (inner ++ (literal ++ back))

/-- Every condition on a value of `p` compares that value. -/
def ConditionAddresses (u : PyStr.Unicode) (loads : String → Option Json) (p : String) : Prop :=
  ∀ (definition : WorkflowDefinition) (n : Node) (nodes : Table String NodeExecution)
    (execution_id : ℕ) (execution : Execution) (attempt : ℕ) (k : String) (v : Json)
    (expression : String) (operator : Operator) (literal : List Char),
    UpstreamValue u definition n nodes p k v → n.type = "condition" →
    n.config.lookup "expression" = some (.str expression) →
    WrittenComparison expression (upstream_path p k) operator literal →
    ConditionExecutor.execute_in u loads
        (build_context execution_id execution nodes definition n n.id attempt)
      = .ok (ConditionExecutor.execute n.config
          ((operator.apply v (parse_literal loads literal)).mapError evaluation_error))

/-- Every transform rule with a value of `p` as its source yields that value: it
gives it, and an execution that goes through has it in its output. -/
def TransformAddresses (u : PyStr.Unicode) (p : String) : Prop :=
  ∀ (definition : WorkflowDefinition) (n : Node) (nodes : Table String NodeExecution)
    (execution_id : ℕ) (execution : Execution) (attempt : ℕ) (k : String) (v : Json)
    (rules rule : JsonObject) (key source : String),
    UpstreamValue u definition n nodes p k v → n.type = "transform" →
    n.config.lookup "mapping_rules" = some (.obj rules) → (rules.map Prod.fst).Nodup →
    (key, .obj rule) ∈ rules → rule.lookup "value" = none →
    rule.lookup "source" = some (.str source) → source.toList = upstream_path p k →
    let context := build_context execution_id execution nodes definition n n.id attempt
    TransformExecutor.apply_rule context.data (.obj rule) = .ok (some v) ∧
      ∀ result, TransformExecutor.execute context = .ok result →
        result.output.lookup key = some v

/-! ## Paths -/

section Paths

variable {p k : String}

/-- A path to the upstream outputs. -/
theorem resolve_upstream {context : ExecutionContext} (tail : List Char) :
    resolve_path context.data ("upstream".toList ++ '.' :: tail)
      = follow (path_parts tail) (.obj context.upstream_outputs) := by
  have hsplit : ("upstream".toList ++ '.' :: tail).splitOn '.'
      = "upstream".toList :: tail.splitOn '.' :=
    List.splitOn_append_cons_self_of_not_mem (by decide) tail
  unfold resolve_path path_parts
  rw [hsplit, List.map_cons]
  rfl

theorem lookup_graph {ps : List String} {f : String → Json} (h : p ∈ ps) :
    (ps.map fun q => (q, f q)).lookup p = some (f p) := by
  induction ps with
  | nil => cases h
  | cons q ps ih =>
      rw [List.map_cons, List.lookup_cons]
      by_cases hpq : p = q
      · subst hpq
        rw [beq_self_eq_true]
      · rw [beq_false_of_ne hpq]
        exact ih ((List.mem_cons.mp h).resolve_left hpq)

/-- What the worker hands to the executor. -/
theorem UpstreamValue.lookup {u : PyStr.Unicode} {definition : WorkflowDefinition} {n : Node}
    {nodes : Table String NodeExecution} {v : Json}
    (h : UpstreamValue u definition n nodes p k v) (execution_id : ℕ) (execution : Execution)
    (attempt : ℕ) :
    ∃ output, (build_context execution_id execution nodes definition n n.id
        attempt).upstream_outputs.lookup p = some (.obj output) ∧ output.lookup k = some v := by
  obtain ⟨output, hpayload, hkey⟩ := h.committed
  refine ⟨output, ?_, hkey⟩
  show (upstream_outputs nodes (definition.parent_ids n.id)).lookup p = _
  unfold upstream_outputs
  rw [lookup_graph (List.mem_filter.mpr ⟨List.mem_eraseDups.mpr h.parent, decide_eq_true h.stored⟩),
    hpayload]
  rfl

/-- **An id without a dot is one step.** Its path has exactly three parts, `upstream`, the
id and the key, and each is a step into a dict. -/
theorem UpstreamValue.resolve {u : PyStr.Unicode} {definition : WorkflowDefinition} {n : Node}
    {nodes : Table String NodeExecution} {v : Json}
    (h : UpstreamValue u definition n nodes p k v) (hdot : '.' ∉ p.toList) (execution_id : ℕ)
    (execution : Execution) (attempt : ℕ) :
    resolve_path (build_context execution_id execution nodes definition n n.id attempt).data
      (upstream_path p k) = v := by
  obtain ⟨output, hlookup, hkey⟩ := h.lookup execution_id execution attempt
  have hkey_dot : '.' ∉ k.toList := fun hmem => word_ne_dot (h.key_word '.' hmem) rfl
  have hparts : path_parts (p.toList ++ '.' :: k.toList) = [p, k] := by
    unfold path_parts
    rw [List.splitOn_append_cons_self_of_not_mem hdot, List.splitOn_eq_singleton hkey_dot,
      List.map_cons, List.map_singleton, String.ofList_toList, String.ofList_toList]
  unfold upstream_path
  rw [resolve_upstream, hparts, follow_eq_find_path]
  show ((List.lookup p _).bind _).getD .null = v
  rw [hlookup]
  show ((List.lookup k output).bind _).getD .null = v
  rw [hkey]
  rfl

end Paths

/-! ## Transforms -/

section Transforms

variable {data output out rules : JsonObject} {key : String}

/-- A key that no rule is for keeps its value. -/
theorem apply_rules_of_not_mem (hkey : key ∉ rules.map Prod.fst)
    (h : TransformExecutor.apply_rules data output rules = .ok out) :
    out.lookup key = output.lookup key := by
  induction rules generalizing output with
  | nil =>
      cases h
      rfl
  | cons head rules ih =>
      obtain ⟨other, rule⟩ := head
      have hne : key ≠ other := fun heq => hkey (heq ▸ List.mem_cons_self)
      have hrest : key ∉ rules.map Prod.fst := fun hmem => hkey (List.mem_cons_of_mem _ hmem)
      rw [TransformExecutor.apply_rules] at h
      split at h
      · cases h
      · exact ih hrest h
      · rw [ih hrest h, lookup_assign_of_ne output _ hne]

/-- **What a rule gives is in the output.** Keys are distinct, and so no later rule writes
over it. -/
theorem apply_rules_of_mem {rule v : Json} (hnodup : (rules.map Prod.fst).Nodup)
    (hmem : (key, rule) ∈ rules) (hrule : TransformExecutor.apply_rule data rule = .ok (some v))
    (h : TransformExecutor.apply_rules data output rules = .ok out) :
    out.lookup key = some v := by
  induction rules generalizing output with
  | nil => cases hmem
  | cons head rules ih =>
      obtain ⟨other, rule'⟩ := head
      obtain ⟨hnot, hnodup⟩ := List.nodup_cons.mp hnodup
      rw [TransformExecutor.apply_rules] at h
      rcases List.mem_cons.mp hmem with heq | hmem
      · cases heq
        rw [hrule] at h
        rw [apply_rules_of_not_mem hnot h, lookup_assign_self]
      · split at h
        · cases h
        · exact ih hnodup hmem h
        · exact ih hnodup hmem h

/-- A transform finds every value under an id without a dot. -/
theorem transformAddresses_of_dotless (u : PyStr.Unicode) {p : String} (hdot : '.' ∉ p.toList) :
    TransformAddresses u p := by
  intro definition n nodes execution_id execution attempt k v rules rule key source hvalue htype
    hrules hnodup hmem hno_value hsource htext context
  have hrule : TransformExecutor.apply_rule context.data (.obj rule) = .ok (some v) := by
    unfold TransformExecutor.apply_rule
    dsimp only
    rw [hno_value, hsource]
    dsimp only
    rw [htext, hvalue.resolve hdot]
  refine ⟨hrule, ?_⟩
  intro result hresult
  unfold TransformExecutor.execute at hresult
  rw [show context.config.lookup "mapping_rules" = some (.obj rules) from hrules] at hresult
  dsimp only [Option.getD_some] at hresult
  cases hout : TransformExecutor.apply_rules context.data [] rules with
  | error e =>
      rw [hout] at hresult
      cases hresult
  | ok out =>
      rw [hout] at hresult
      cases hresult
      exact apply_rules_of_mem hnodup hmem hrule hout

end Transforms

/-! ## Conditions -/

section ConditionsOf

variable {u : PyStr.Unicode} {loads : String → Option Json} {p k : String}

/-- What the executor returns is decided by the expression. -/
theorem execute_in_of_expression {context : ExecutionContext} {expression : String}
    (h : context.config.lookup "expression" = some (.str expression)) :
    ConditionExecutor.execute_in u loads context = .ok (ConditionExecutor.execute context.config
      (evaluate_condition_expression u loads expression context.data)) := by
  unfold ConditionExecutor.execute_in
  rw [h]

theorem path_char_of_word {c : Char} (h : u.word c = true) : path_char u c = true :=
  Bool.or_eq_true_iff.mpr (Or.inl h)

theorem upstream_char {c : Char} (h : c ∈ "upstream".toList) : path_char u c = true := by
  have hascii : ∀ c ∈ "upstream".toList, c.toNat < 128 ∧ (c.isAlphanum || c == '_') = true :=
    List.all_iff_forall_prop.mp (by decide)
  apply path_char_of_word
  rw [u.word_ascii (hascii c h).1, (hascii c h).2]

theorem dot_path_char : path_char u '.' = true := Bool.or_eq_true_iff.mpr (Or.inr rfl)

theorem upstream_path_chars (hp : ∀ c ∈ p.toList, path_char u c = true)
    (hk : ∀ c ∈ k.toList, path_char u c = true) :
    ∀ c ∈ upstream_path p k, path_char u c = true := by
  unfold upstream_path
  intro c hc
  rcases List.mem_append.mp hc with hc | hc
  · exact upstream_char hc
  · rcases List.mem_cons.mp hc with rfl | hc
    · exact dot_path_char
    · rcases List.mem_append.mp hc with hc | hc
      · exact hp c hc
      · rcases List.mem_cons.mp hc with rfl | hc
        · exact dot_path_char
        · exact hk c hc

theorem upstream_path_ne_nil : upstream_path p k ≠ [] :=
  List.append_ne_nil_of_left_ne_nil (by decide) _

/-- Where the id is of characters of a path, the expression is read as written. -/
theorem WrittenComparison.groups {expression : String} {operator : Operator}
    {literal : List Char} (h : WrittenComparison expression (upstream_path p k) operator literal)
    (hp : ∀ c ∈ p.toList, path_char u c = true) (hk : ∀ c ∈ k.toList, path_char u c = true) :
    match? (COMPARISON_RE u) expression.toList
      = some [upstream_path p k, operator.text.toList, literal] := by
  obtain ⟨front, mid, inner, back, hspace, hsolid, hne, hline, htext⟩ := h
  rw [htext]
  exact match?_expression ⟨hspace front (by simp), upstream_path_ne_nil, upstream_path_chars hp hk,
    hspace mid (by simp)⟩ (hspace inner (by simp)) hsolid hne (hspace back (by simp)) hline

/-- A condition compares every value under an id of word characters. -/
theorem conditionAddresses_of_word (hp : ∀ c ∈ p.toList, u.word c = true) :
    ConditionAddresses u loads p := by
  intro definition n nodes execution_id execution attempt k v expression operator literal hvalue
    htype hconfig hwritten
  have hdot : '.' ∉ p.toList := fun hmem => word_ne_dot (hp '.' hmem) rfl
  have hgroups := hwritten.groups (fun c hc => path_char_of_word (hp c hc))
    (fun c hc => path_char_of_word (hvalue.key_word c hc))
  rw [execute_in_of_expression hconfig, evaluate_of_match _ hgroups, hvalue.resolve hdot]
  rfl

end ConditionsOf

/-! ## Words that a condition must not contain -/

section Words

variable {word a b text : List Char}

theorem occurs_iff : ConditionExecutor.occurs word text = true ↔ word <:+: text := by
  induction text with
  | nil => rw [ConditionExecutor.occurs, List.isEmpty_iff, List.infix_nil]
  | cons c text ih =>
      rw [ConditionExecutor.occurs, Bool.or_eq_true, List.isPrefixOf_iff_prefix, ih,
        List.infix_cons_iff]

/-- A word without dots stands on one side of a dot. -/
theorem occurs_around_dot (hdot : '.' ∉ word) (h : word <:+: a ++ '.' :: b) :
    word <:+: a ∨ word <:+: b := by
  obtain ⟨s, t, hst⟩ := h
  rcases List.append_eq_append_iff.mp hst with ⟨a', rfl, -⟩ | ⟨rest, hs, hb⟩
  · exact Or.inl ⟨s, a', rfl⟩
  cases rest with
  | nil => exact Or.inl ⟨s, [], by rw [List.append_nil, hs, List.append_nil]⟩
  | cons c rest =>
      obtain ⟨rfl, rfl⟩ := List.cons.inj hb
      rcases List.append_eq_append_iff.mp hs with ⟨a', -, rfl⟩ | ⟨s', -, hw⟩
      · exact absurd (List.mem_append_right _ List.mem_cons_self) hdot
      · cases s' with
        | nil =>
            rw [List.nil_append] at hw
            exact absurd (hw ▸ List.mem_cons_self) hdot
        | cons d s' =>
            obtain ⟨-, rfl⟩ := List.cons.inj hw
            exact Or.inr ⟨s', t, rfl⟩

theorem has_disallowed_word_iff {text : String} :
    ConditionExecutor.has_disallowed_word text = true ↔
      ∃ word ∈ ConditionExecutor.disallowed_words, word.toList <:+: text.toList := by
  unfold ConditionExecutor.has_disallowed_word
  rw [List.any_eq_true]
  simp only [occurs_iff]

/-- **A condition with such a word is not accepted.** This is `validate_config`, which
looks for the words anywhere in the expression, also inside an id. -/
theorem no_disallowed_word {definition : WorkflowDefinition} {n : Node} {expression : String}
    (haccepted : Accepted default_registry definition) (hn : n ∈ definition.nodes)
    (htype : n.type = "condition")
    (hconfig : n.config.lookup "expression" = some (.str expression)) :
    ConditionExecutor.has_disallowed_word expression = false := by
  obtain ⟨result, hresult⟩ := haccepted
  obtain ⟨executor, hget, hvalid⟩ :=
    (validate_workflow_ok_iff.mp hresult).1.1.nodes n hn
  rw [htype] at hget
  cases hget
  have hget : JsonObject.get n.config "expression" = .str expression := by
    rw [JsonObject.get, hconfig]
    rfl
  change ConditionExecutor.validate_config n.config = .ok () at hvalid
  unfold ConditionExecutor.validate_config at hvalid
  rw [hget] at hvalid
  split at hvalid
  · cases hvalid
  · dsimp only at hvalid
    split at hvalid
    · cases hvalid
    · rename_i hword
      exact Bool.not_eq_true _ ▸ hword

/-- An id with such a word is in no condition that is accepted. -/
theorem conditionAddresses_of_disallowed {u : PyStr.Unicode} {loads : String → Option Json}
    {p : String} (hp : ConditionExecutor.has_disallowed_word p = true) :
    ConditionAddresses u loads p := by
  intro definition n nodes execution_id execution attempt k v expression operator literal hvalue
    htype hconfig hwritten
  obtain ⟨front, mid, inner, back, -, -, -, -, htext⟩ := hwritten
  have hnone := no_disallowed_word hvalue.accepted hvalue.node htype hconfig
  obtain ⟨word, hword, hinside⟩ := has_disallowed_word_iff.mp hp
  have hsome : ConditionExecutor.has_disallowed_word expression = true := by
    rw [has_disallowed_word_iff]
    refine ⟨word, hword, hinside.trans ?_⟩
    rw [htext]
    unfold expression_text upstream_path
    apply List.infix_append_of_infix_right
    apply List.infix_append_of_infix_left
    apply List.infix_append_of_infix_right
    exact List.infix_cons List.infix_append_left
  rw [hnone] at hsome
  cases hsome

end Words

/-! ## Ids that are not addressed -/

section Unaddressed

/-- The first part of a path is the text before its first dot. -/
theorem path_parts_head (text : List Char) :
    ∃ first parts, path_parts text = String.ofList first :: parts ∧ '.' ∉ first ∧
      ∀ c ∈ first, c ∈ text := by
  obtain ⟨first, rest, rfl, hfirst, hrest⟩ := exists_run (fun c => c != '.') text
  have hdot : '.' ∉ first := fun hmem => absurd (hfirst '.' hmem) (by decide)
  unfold path_parts
  cases rest with
  | nil =>
      rw [List.append_nil, List.splitOn_eq_singleton hdot]
      exact ⟨first, [], rfl, hdot, fun c hc => hc⟩
  | cons c rest =>
      have hc : c = '.' := by
        have hstop := hrest c rfl
        rwa [bne_eq_false_iff_eq] at hstop
      subst hc
      rw [List.splitOn_append_cons_self_of_not_mem hdot]
      exact ⟨first, _, rfl, hdot, fun c hc => List.mem_append_left _ hc⟩

/-- A path that begins with another id leads to nothing. -/
theorem resolve_other {context : ExecutionContext} {p : String} {v : Json} {tail : List Char}
    (hcontext : context.upstream_outputs = [(p, v)])
    (hother : ∀ first : List Char, '.' ∉ first → (∀ c ∈ first, c ∈ tail) → first ≠ p.toList) :
    resolve_path context.data ("upstream".toList ++ '.' :: tail) = .null := by
  obtain ⟨first, parts, hparts, hdot, hsub⟩ := path_parts_head tail
  have hne : String.ofList first ≠ p := by
    intro heq
    apply hother first hdot hsub
    rw [← heq, String.toList_ofList]
  rw [resolve_upstream, hcontext, hparts, follow, JsonObject.get, List.lookup_cons,
    beq_false_of_ne hne]
  exact follow_null parts

/-- A node that gives `v` under `k`. -/
def sender (p : String) (hp : p ≠ "") (v : Json) : Node where
  id := p
  type := "transform"
  config := [("mapping_rules", .obj [("k", .obj [("value", v)])])]
  id_length := hp
  type_length := transform_ne_empty

/-- The id of the node that reads it. -/
def reader_id (p : String) : String := p ++ "_"

theorem reader_id_ne (p : String) : reader_id p ≠ p := by
  intro h
  have hlength := congrArg String.length h
  have hone : "_".length = 1 := by decide
  rw [reader_id, String.length_append] at hlength
  omega

theorem reader_id_ne_empty (p : String) : reader_id p ≠ "" := by
  intro h
  have hlength := congrArg String.length h
  have hone : "_".length = 1 := by decide
  have hzero : "".length = 0 := by decide
  rw [reader_id, String.length_append] at hlength
  omega

/-- `p`, and `n` after it. -/
def reading_definition (p : String) (hp : p ≠ "") (v : Json) (n : Node) : WorkflowDefinition where
  name := "reading"
  nodes := [sender p hp v, n]
  edges := [{ from_node := p, to_node := n.id }]

/-- `p` has succeeded with `v` under `k`. -/
def sent (p : String) (v : Json) : Table String NodeExecution where
  keys := [p, reader_id p]
  row := fun q =>
    if q = p then { node_type := "transform", status := .SUCCEEDED, attempt := 1,
                    max_attempts := 3, output_payload := some [("k", v)] }
    else { node_type := "", status := .RUNNING, attempt := 1, max_attempts := 3 }

/-- An execution without input. -/
def reading : Execution where
  workflow_id := 0
  workflow_version_id := 0
  status := .RUNNING
  input_payload := none

variable {p : String} {hp : p ≠ ""} {n : Node} {v : Json}

theorem sender_valid : NodeValid default_registry (sender p hp v) :=
  ⟨⟨TransformExecutor.validate_config⟩, rfl, rfl⟩

theorem reading_definition_accepted (hid : n.id = reader_id p)
    (hvalid : NodeValid default_registry n) :
    Accepted default_registry (reading_definition p hp v n) := by
  have hne : p ≠ n.id := fun heq => reader_id_ne p (hid ▸ heq.symm)
  refine ⟨_, validate_workflow_ok_iff.mpr ⟨⟨⟨?_, ?_, ?_⟩, ?_⟩, rfl⟩⟩
  · show [p, n.id].Nodup
    rw [List.nodup_cons, List.mem_singleton]
    exact ⟨hne, List.nodup_singleton _⟩
  · intro node hnode
    rcases List.mem_cons.mp hnode with rfl | hnode
    · exact sender_valid
    · rw [List.mem_singleton.mp hnode]
      exact hvalid
  · intro e he
    rw [List.mem_singleton.mp he]
    exact ⟨List.mem_cons_self, List.mem_cons_of_mem _ List.mem_cons_self⟩
  · apply EdgeGraph.acyclic_of_rank fun q => if q = p then 0 else 1
    intro e he
    rw [List.mem_singleton.mp he]
    show (if p = p then 0 else 1) < if n.id = p then 0 else 1
    rw [if_pos rfl, if_neg hne.symm]
    exact Nat.zero_lt_one

theorem reading_parent : (reading_definition p hp v n).parent_ids n.id = [p] := by
  simp [WorkflowDefinition.parent_ids, reading_definition]

theorem sent_output : ((sent p v).row p).output_payload = some [("k", v)] := by
  unfold sent
  dsimp only
  rw [if_pos rfl]

theorem upstreamValue_sent (u : PyStr.Unicode) (hid : n.id = reader_id p)
    (hvalid : NodeValid default_registry n) :
    UpstreamValue u (reading_definition p hp v n) n (sent p v) p "k" v where
  accepted := reading_definition_accepted hid hvalid
  node := List.mem_cons_of_mem _ List.mem_cons_self
  parent := by
    rw [reading_parent]
    exact List.mem_cons_self
  stored := List.mem_cons_self
  committed := ⟨[("k", v)], sent_output, List.lookup_cons_self⟩
  key_word := by
    intro c hc
    rw [List.mem_singleton.mp hc, u.word_ascii (by decide)]
    decide

/-- The reader sees the output of `p` alone. -/
theorem reading_upstream :
    (build_context 0 reading (sent p v) (reading_definition p hp v n) n n.id 1).upstream_outputs
      = [(p, .obj [("k", v)])] := by
  show upstream_outputs (sent p v) ((reading_definition p hp v n).parent_ids n.id) = _
  have hkeys : p ∈ (sent p v).keys := List.mem_cons_self
  have hdups : [p].eraseDups = [p] := rfl
  rw [reading_parent]
  simp [upstream_outputs, hdups, hkeys, sent_output, Json.of_payload]

/-! ### A transform -/

/-- A transform of the output of `p`. -/
def transform_reader (p : String) : Node where
  id := reader_id p
  type := "transform"
  config := [("mapping_rules", .obj [("out",
    .obj [("source", .str (String.ofList (upstream_path p "k")))])])]
  id_length := reader_id_ne_empty p
  type_length := transform_ne_empty

/-- **An id with a dot** is no step of a path. The path is split at the dot of the id, and
no output is stored under the first half; so the rule finds nothing and gives `None`
instead of the value. -/
theorem not_transformAddresses (u : PyStr.Unicode) (hdot : '.' ∈ p.toList) :
    ¬ TransformAddresses u p := by
  intro h
  have hp : p ≠ "" := by
    rintro rfl
    cases hdot
  have hvalue : UpstreamValue u (reading_definition p hp (.int 1) (transform_reader p))
      (transform_reader p) (sent p (.int 1)) p "k" (.int 1) :=
    upstreamValue_sent u rfl ⟨⟨TransformExecutor.validate_config⟩, rfl, rfl⟩
  obtain ⟨hrule, -⟩ := h _ _ _ 0 reading 1 "k" (.int 1) _ _ "out" _ hvalue rfl rfl
    (List.nodup_singleton _) List.mem_cons_self rfl rfl String.toList_ofList
  have hnull : resolve_path (build_context 0 reading (sent p (.int 1))
      (reading_definition p hp (.int 1) (transform_reader p)) (transform_reader p)
      (transform_reader p).id 1).data (upstream_path p "k") = .null := by
    apply resolve_other reading_upstream
    rintro first hfirst - rfl
    exact hfirst hdot
  rw [← String.toList_ofList (l := upstream_path p "k")] at hnull
  cases hnull.symm.trans (Option.some.inj (Except.ok.inj hrule))

/-! ### A condition -/

/-- The condition `upstream.p.k < 1`. -/
def reader_expression (p : String) : String :=
  String.ofList (expression_text [] (upstream_path p "k") [' '] .lt [' ', '1'])

/-- A condition on the output of `p`. -/
def condition_reader (p : String) : Node where
  id := reader_id p
  type := "condition"
  config := [("expression", .str (reader_expression p)), ("true_path", .null),
    ("false_path", .null)]
  id_length := reader_id_ne_empty p
  type_length := condition_ne_empty

theorem upstream_path_append (p k : String) (rest : List Char) :
    upstream_path p k ++ rest
      = "upstream".toList ++ '.' :: (p.toList ++ '.' :: (k.toList ++ rest)) := by
  unfold upstream_path
  generalize "upstream".toList = name
  simp only [List.append_assoc, List.cons_append]

theorem reader_expression_chars (p : String) : (reader_expression p).toList
    = "upstream".toList ++ '.' :: (p.toList ++ '.' :: "k < 1".toList) := by
  unfold reader_expression expression_text
  rw [String.toList_ofList, List.nil_append, upstream_path_append]
  rfl

theorem reader_comparison (p : String) :
    WrittenComparison (reader_expression p) (upstream_path p "k") .lt ['1'] := by
  have hspace : PyStr.isspace ' ' = true := rfl
  have hblank : ∀ part ∈ [[], [' '], [' '], []], ∀ c ∈ part, PyStr.isspace c = true := by
    simp [hspace]
  have hsolid : Solid PyStr.isspace ['1'] := by
    refine ⟨List.cons_ne_nil _ _, ?_, ?_⟩
    · rintro c ⟨⟩
      rfl
    · rintro c ⟨⟩
      rfl
  exact ⟨[], [' '], [' '], [], hblank, hsolid, by simp, by decide, String.toList_ofList⟩

/-- The condition is accepted, if the id has none of the words. -/
theorem condition_reader_valid (hword : ConditionExecutor.has_disallowed_word p = false) :
    NodeValid default_registry (condition_reader p) := by
  have hnone : ConditionExecutor.has_disallowed_word (reader_expression p) = false := by
    by_contra hsome
    rw [Bool.not_eq_false, has_disallowed_word_iff] at hsome
    obtain ⟨word, hmem, hinside⟩ := hsome
    rw [reader_expression_chars] at hinside
    have hclear : ∀ word ∈ ConditionExecutor.disallowed_words, '.' ∉ word.toList ∧
        ¬ word.toList <:+: "upstream".toList ∧ ¬ word.toList <:+: "k < 1".toList := by decide
    obtain ⟨hdot, hleft, hright⟩ := hclear word hmem
    rcases occurs_around_dot hdot hinside with h | h
    · exact hleft h
    · rcases occurs_around_dot hdot h with h | h
      · have hp := has_disallowed_word_iff.mpr ⟨word, hmem, h⟩
        rw [hword] at hp
        cases hp
      · exact hright h
  have hfields : (["expression", "true_path", "false_path"].find? fun name =>
      !(condition_reader p).config.has name) = none := rfl
  have hexpression : JsonObject.get (condition_reader p).config "expression"
      = .str (reader_expression p) := rfl
  refine ⟨⟨ConditionExecutor.validate_config⟩, rfl, ?_⟩
  dsimp only
  unfold ConditionExecutor.validate_config
  rw [hfields, hexpression]
  dsimp only
  rw [hnone, if_neg Bool.false_ne_true]

/-- An expression depends on what its path leads to. -/
theorem evaluate_congr {u : PyStr.Unicode} {loads : String → Option Json} {e : String}
    {data data' : JsonObject}
    (h : ∀ path groups, match? (COMPARISON_RE u) e.toList = some (path :: groups) →
      resolve_path data path = resolve_path data' path) :
    evaluate_condition_expression u loads e data
      = evaluate_condition_expression u loads e data' := by
  unfold evaluate_condition_expression
  split
  · rename_i path operator raw hmatch
    rw [h path [operator, raw] hmatch]
  · rfl

variable {u : PyStr.Unicode}

/-- With a dot as its only other character, the id is in the path, which is split
inside of it. -/
theorem taken_path_whole (hpath : ∀ c ∈ p.toList, path_char u c = true) {path : List Char}
    {groups : List (List Char)}
    (h : match? (COMPARISON_RE u) (reader_expression p).toList = some (path :: groups)) :
    path = "upstream".toList ++ '.' :: (p.toList ++ '.' :: "k".toList) := by
  have hkey : ∀ c ∈ "k".toList, path_char u c = true := by
    intro c hc
    apply path_char_of_word
    rw [List.mem_singleton.mp hc, u.word_ascii (by decide)]
    decide
  rw [(reader_comparison p).groups hpath hkey] at h
  injection h with h
  injection h with h _
  exact h.symm

/-- Any other character ends the path. The pattern takes path characters as long as there
are any, so if it matches at all, the path ends before that character. -/
theorem taken_path_cut {run rest : List Char} {c : Char} (hp : p.toList = run ++ c :: rest)
    (hrun : ∀ d ∈ run, path_char u d = true) (hc : path_char u c = false) {path : List Char}
    {groups : List (List Char)}
    (h : match? (COMPARISON_RE u) (reader_expression p).toList = some (path :: groups)) :
    path = "upstream".toList ++ '.' :: run := by
  have htaken : ∀ d ∈ "upstream".toList ++ '.' :: run, path_char u d = true := by
    intro d hd
    rcases List.mem_append.mp hd with hd | hd
    · exact upstream_char hd
    · rcases List.mem_cons.mp hd with rfl | hd
      · exact dot_path_char
      · exact hrun d hd
  have hnext : ∀ d ∈ (c :: (rest ++ '.' :: "k < 1".toList)).head?, path_char u d = false := by
    rintro d ⟨⟩
    exact hc
  have htext : (reader_expression p).toList
      = [] ++ (("upstream".toList ++ '.' :: run) ++ c :: (rest ++ '.' :: "k < 1".toList)) := by
    rw [reader_expression_chars, hp]
    generalize "upstream".toList = name
    generalize "k < 1".toList = tail
    simp only [List.append_assoc, List.cons_append, List.nil_append]
  have hne : "upstream".toList ++ '.' :: run ≠ [] :=
    List.append_ne_nil_of_right_ne_nil _ (List.cons_ne_nil _ _)
  have hhead : ∀ d ∈ (("upstream".toList ++ '.' :: run) ++
      c :: (rest ++ '.' :: "k < 1".toList)).head?, PyStr.isspace d = false := by
    rw [List.head?_append_of_ne_nil _ hne]
    intro d hd
    exact path_char_not_isspace (htaken d (List.mem_of_mem_head? hd))
  rw [htext, match?_blanks_path (List.forall_mem_nil _) hhead, match?_path htaken hnext] at h
  split at h
  · obtain ⟨groups', -, heq⟩ := Option.map_eq_some_iff.mp h
    injection heq with heq _
    exact heq.symm
  · cases h

/-- **An id that is not of word characters** is not read. Two contexts that differ in the
output of `p` alone give the same result. So whatever the expression evaluates to, it does
not depend on the output it names. -/
theorem reader_expression_unread {loads : String → Option Json}
    {context context' : ExecutionContext} {v v' : Json} (hbad : ∃ c ∈ p.toList, u.word c = false)
    (hcontext : context.upstream_outputs = [(p, v)])
    (hcontext' : context'.upstream_outputs = [(p, v')]) :
    evaluate_condition_expression u loads (reader_expression p) context.data
      = evaluate_condition_expression u loads (reader_expression p) context'.data := by
  apply evaluate_congr
  intro path groups hmatch
  by_cases hpath : ∀ d ∈ p.toList, path_char u d = true
  · have hother : ∀ first : List Char, '.' ∉ first →
        (∀ d ∈ first, d ∈ p.toList ++ '.' :: "k".toList) → first ≠ p.toList := by
      rintro first hfirst - rfl
      obtain ⟨c, hc, hcword⟩ := hbad
      -- the character is a dot
      have hdot := hpath c hc
      rw [path_char, hcword, Bool.false_or, beq_iff_eq] at hdot
      exact hfirst (hdot ▸ hc)
    rw [taken_path_whole hpath hmatch, resolve_other hcontext hother,
      resolve_other hcontext' hother]
  · obtain ⟨run, rest, hp, hrun, hrest⟩ := exists_run (path_char u) p.toList
    cases rest with
    | nil =>
        rw [List.append_nil] at hp
        exact absurd (hp ▸ hrun) hpath
    | cons c rest =>
        have hc := hrest c rfl
        have hother : ∀ first : List Char, '.' ∉ first → (∀ d ∈ first, d ∈ run) →
            first ≠ p.toList := by
          rintro first - hsub rfl
          have hmem := hsub c (hp ▸ List.mem_append_right _ List.mem_cons_self)
          rw [hrun c hmem] at hc
          cases hc
        rw [taken_path_cut hp hrun hc hmatch, resolve_other hcontext hother,
          resolve_other hcontext' hother]

/-- Neither `None` nor a dict has an order with anything. -/
theorem apply_lt_unordered (x : Json) :
    Operator.lt.apply .null x = .error (Operator.lt.order_error ("NoneType", x.type_name)) ∧
    Operator.lt.apply (.obj []) x = .error (Operator.lt.order_error ("dict", x.type_name)) := by
  cases x <;> exact ⟨rfl, rfl⟩

theorem evaluation_error_message (text : String) :
    (evaluation_error text).message = "Type error evaluating condition: " ++ text := rfl

theorem order_error_text (operator : Operator) (types : String × String) :
    operator.order_error types = "'" ++ operator.text ++ "' not supported between instances of '"
      ++ types.1 ++ "' and '" ++ types.2 ++ "'" := rfl

/-- The error of an executor tells how long the text of a `TypeError` was. -/
theorem execute_error_length {config : JsonObject} {text text' : String}
    (h : ConditionExecutor.execute config (.error (evaluation_error text))
      = ConditionExecutor.execute config (.error (evaluation_error text'))) :
    text.length = text'.length := by
  have hmessage := congrArg ExecutorResult.error h
  unfold ConditionExecutor.execute at hmessage
  dsimp only at hmessage
  rw [evaluation_error_message, evaluation_error_message, Option.some.injEq] at hmessage
  have hlength := congrArg String.length hmessage
  rw [String.length_append, String.length_append] at hlength
  exact Nat.add_left_cancel hlength

/-- The two errors differ. -/
theorem unordered_errors_ne (config : JsonObject) (x : Json) :
    ConditionExecutor.execute config
        ((Operator.lt.apply .null x).mapError evaluation_error) ≠
      ConditionExecutor.execute config
        ((Operator.lt.apply (.obj []) x).mapError evaluation_error) := by
  obtain ⟨hnull, hdict⟩ := apply_lt_unordered x
  rw [hnull, hdict]
  intro heq
  have hlength := execute_error_length heq
  rw [order_error_text, order_error_text] at hlength
  -- the names of the types differ in length
  have hnames : "NoneType".length = 8 ∧ "dict".length = 4 := by decide
  simp only [String.length_append] at hlength
  omega

/-- **A condition does not address** an id that is not of word characters. If it did, the
answer would be that of the comparison for every output. But it is the same for all
outputs ([`reader_expression_unread`]), and that of the comparison is not. -/
theorem not_conditionAddresses {loads : String → Option Json}
    (hbad : ∃ c ∈ p.toList, u.word c = false)
    (hword : ConditionExecutor.has_disallowed_word p = false) :
    ¬ ConditionAddresses u loads p := by
  intro h
  have hp : p ≠ "" := by
    rintro rfl
    obtain ⟨c, hc, -⟩ := hbad
    cases hc
  have hresult : ∀ v, ConditionExecutor.execute (condition_reader p).config
      (evaluate_condition_expression u loads (reader_expression p) (build_context 0 reading
        (sent p v) (reading_definition p hp v (condition_reader p)) (condition_reader p)
        (condition_reader p).id 1).data)
      = ConditionExecutor.execute (condition_reader p).config
        ((Operator.lt.apply v (parse_literal loads ['1'])).mapError evaluation_error) := by
    intro v
    have hvalue : UpstreamValue u (reading_definition p hp v (condition_reader p))
        (condition_reader p) (sent p v) p "k" v :=
      upstreamValue_sent u rfl (condition_reader_valid hword)
    exact Except.ok.inj (h _ _ _ 0 reading 1 "k" v _ .lt _ hvalue rfl rfl (reader_comparison p))
  apply unordered_errors_ne (condition_reader p).config (parse_literal loads ['1'])
  rw [← hresult .null, ← hresult (.obj []),
    reader_expression_unread hbad reading_upstream reading_upstream]

end Unaddressed

/-- **Upstream outputs are addressed** by a condition if and only if the id of the parent
is of word characters, or has a word for which the condition is refused; and by a
transform if and only if the id has no dot. A condition reads the id out of the text of
its expression, and a transform out of a string of its configuration; that is why the one
needs word characters and the other only that there is no dot. Where the id has a refused
word, no definition with such a condition is accepted, and there is nothing to show. -/
theorem upstream_addressable_iff (u : PyStr.Unicode) (loads : String → Option Json) (p : String) :
    (ConditionAddresses u loads p ↔
      (∀ c ∈ p.toList, u.word c = true) ∨ ConditionExecutor.has_disallowed_word p = true) ∧
    (TransformAddresses u p ↔ '.' ∉ p.toList) := by
  refine ⟨⟨?_, ?_⟩, ⟨?_, transformAddresses_of_dotless u⟩⟩
  · intro h
    by_contra hnone
    rw [not_or, Bool.not_eq_true] at hnone
    obtain ⟨hbad, hword⟩ := hnone
    refine not_conditionAddresses ?_ hword h
    by_contra hall
    apply hbad
    intro c hc
    by_contra hc'
    rw [Bool.not_eq_true] at hc'
    exact hall ⟨c, hc, hc'⟩
  · rintro (hp | hp)
    · exact conditionAddresses_of_word hp
    · exact conditionAddresses_of_disallowed hp
  · intro h hdot
    exact not_transformAddresses u hdot h

/-- What `json.loads` reads `1` as. -/
def loads_one (text : String) : Option Json := if text = "1" then some (.int 1) else none

theorem hyphen_ne_empty : "node-1" ≠ "" := by decide

/-- The condition `upstream.node-1.k < 1` on an output with `0` under `k`. -/
theorem hyphen_id_not_addressed :
    UpstreamValue .ascii (reading_definition "node-1" hyphen_ne_empty (.int 0)
      (condition_reader "node-1")) (condition_reader "node-1") (sent "node-1" (.int 0))
      "node-1" "k" (.int 0) ∧
    ConditionExecutor.execute_in .ascii loads_one (build_context 0 reading
        (sent "node-1" (.int 0)) (reading_definition "node-1" hyphen_ne_empty (.int 0)
          (condition_reader "node-1")) (condition_reader "node-1") (reader_id "node-1") 1)
      = .ok { success := false
              error := some "Unsupported condition expression: upstream.node-1.k < 1" } ∧
    ¬ ConditionAddresses .ascii loads_one "node-1" := by
  have hword : ConditionExecutor.has_disallowed_word "node-1" = false := by decide
  refine ⟨upstreamValue_sent .ascii rfl (condition_reader_valid hword), rfl, ?_⟩
  exact not_conditionAddresses ⟨'-', by decide, by decide⟩ hword

end EventFlow
