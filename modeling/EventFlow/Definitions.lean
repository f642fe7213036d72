/-
The two directions between a `WorkflowDefinition` and the JSON of the column
`workflow_versions.definition`: `model_dump(exclude_none=True, mode="json")` and
`WorkflowDefinition.model_validate`, for the models of `schemas/workflow.py`.

A dump writes every field under its field name and leaves out the fields that
are `None`; what is inside a `config` is not a model and is written as it is.
Validation looks a field up under its alias and then, where `populate_by_name`
is set, under its name; an absent field takes its default, other members of the
object are ignored, and the errors of all fields are collected. Values are
converted as in pydantic's lax mode. What that mode reads from a string is a
parameter (`Pydantic`), since no dump writes a number as a string.

Edges are written as `from_node` and `to_node` and read as `from` and `to`.
[`model_validate_model_dump`] is that the two meet again at every level.
-/
import EventFlow.Schema

set_option autoImplicit false

namespace EventFlow

/-! ## Errors of a validation -/

/-- A part of the `loc` of an error. -/
inductive LocItem where
  | field (name : String)
  | index (i : ℕ)
deriving DecidableEq, Repr

/-- An entry of `ValidationError.errors()`. -/
structure ErrorDetails where
  loc : List LocItem
  type : String
deriving DecidableEq, Repr

/-- What a validation returns: the value, or all of its errors, as pydantic collects them.
-/
abbrev Validated (α : Type) := Except (List ErrorDetails) α

namespace Validated

variable {α β : Type}

/-- One error at the value itself. -/
def fail (type : String) : Validated α := .error [{ loc := [], type }]

/-- The errors of a part, located in the whole. The location grows from the inside out. -/
def within (item : LocItem) : Validated α → Validated α
  | .ok a => .ok a
  | .error errors => .error (errors.map fun e => { e with loc := item :: e.loc })

/-- Both parts, with the errors of both. A field does not stop the ones after it from
being validated. -/
def both : Validated α → Validated β → Validated (α × β)
  | .ok a, .ok b => .ok (a, b)
  | .ok _, .error errors => .error errors
  | .error errors, .ok _ => .error errors
  | .error errors, .error errors' => .error (errors ++ errors')

@[simp] theorem within_ok (item : LocItem) (a : α) : within item (.ok a) = .ok a := rfl

@[simp] theorem both_ok (a : α) (b : β) : both (.ok a) (.ok b) = .ok (a, b) := rfl

end Validated

/-! ## Values -/

/-- What the lax mode reads from a string. Nothing is asked of it: the results hold
whatever it reads. -/
structure Pydantic where
  int_of_str : String → Option ℤ
  float_of_str : String → Option ℚ

section Values

variable (py : Pydantic) {α : Type}

/-- `str`. Nothing else is taken for a string, also not a number. -/
def validate_str : Json → Validated String
  | .str s => .ok s
  | _ => .fail "string_type"

/-- `str = Field(min_length=1)`. -/
def validate_nonempty_str : Json → Validated { s : String // s ≠ "" }
  | .str s => if h : s ≠ "" then .ok ⟨s, h⟩ else .fail "string_too_short"
  | _ => .fail "string_type"

/-- The integer a value is converted to. An integral float goes through 64 bits; an
`int` and the digits of a string do not. -/
def lax_int : Json → Validated ℤ
  | .int n => .ok n
  | .bool b => .ok (if b then 1 else 0)
  | .float q =>
    if q.den ≠ 1 then .fail "int_from_float"
    else if -2 ^ 63 < q.num ∧ q.num < 2 ^ 63 then .ok q.num
    else .fail "int_parsing_size"
  | .str s =>
    match py.int_of_str s with
    | some n => .ok n
    | none => .fail "int_parsing"
  | _ => .fail "int_type"

/-- `int = Field(ge=1)`, with an upper bound if there is one. -/
def validate_positive_int (le : Option ℕ) (v : Json) :
    Validated { n : ℕ // 1 ≤ n ∧ ∀ m ∈ le, n ≤ m } :=
  match lax_int py v with
  | .error errors => .error errors
  | .ok n =>
    if hge : 1 ≤ n then
      if hle : ∀ m ∈ le, n.toNat ≤ m then .ok ⟨n.toNat, by omega, hle⟩
      else .fail "less_than_equal"
    else .fail "greater_than_equal"

/-- The float a value is converted to. -/
def lax_float : Json → Validated ℚ
  | .float q => .ok q
  | .int n => .ok n
  | .bool b => .ok (if b then 1 else 0)
  | .str s =>
    match py.float_of_str s with
    | some q => .ok q
    | none => .fail "float_parsing"
  | _ => .fail "float_type"

/-- `float = Field(ge=1.0)`. -/
def validate_float_ge_one (v : Json) : Validated { q : ℚ // 1 ≤ q } :=
  match lax_float py v with
  | .error errors => .error errors
  | .ok q => if h : 1 ≤ q then .ok ⟨q, h⟩ else .fail "greater_than_equal"

/-- `dict[str, Any]`. -/
def validate_dict : Json → Validated JsonObject
  | .obj o => .ok o
  | _ => .fail "dict_type"

/-- `T | None`. -/
def validate_optional (validate : Json → Validated α) : Json → Validated (Option α)
  | .null => .ok none
  | v => (validate v).map some

/-- The items of a `list[T]`, the first of them at index `i`. -/
def validate_items (validate : Json → Validated α) : ℕ → List Json → Validated (List α)
  | _, [] => .ok []
  | i, v :: rest =>
    (((validate v).within (.index i)).both (validate_items validate (i + 1) rest)).map
      fun p => p.1 :: p.2

/-- `list[T]`. -/
def validate_list (validate : Json → Validated α) : Json → Validated (List α)
  | .arr items => validate_items validate 0 items
  | _ => .fail "list_type"

/-- A field of a model, looked up under the names given in order. A field
without a default is required. -/
def field (o : JsonObject) (names : List String) (default : Option α)
    (validate : Json → Validated α) : Validated α :=
  match names.findSome? fun name => (o.lookup name).map (name, ·) with
  | some (name, v) => (validate v).within (.field name)
  | none =>
    match default with
    | some a => .ok a
    | none => .error [{ loc := names.head?.toList.map .field, type := "missing" }]

end Values

/-! ## The models -/

/-- The members of a dump: a field that is `None` is left out. A `None` inside a `config`
is written. -/
def exclude_none (fields : List (String × Option Json)) : JsonObject :=
  fields.filterMap fun p => p.2.map (p.1, ·)

/-- `RetryPolicy.model_dump`. -/
def RetryPolicy.model_dump (policy : RetryPolicy) : Json :=
  .obj (exclude_none
    [("max_attempts", some (.int policy.max_attempts)),
      ("initial_interval", some (.int policy.initial_interval)),
      ("max_interval", some (.int policy.max_interval)),
      ("backoff_multiplier", some (.float policy.backoff_multiplier))])

/-- `Node.model_dump`. -/
def Node.model_dump (node : Node) : Json :=
  .obj (exclude_none
    [("id", some (.str node.id)), ("type", some (.str node.type)),
      ("name", some (.str node.name)), ("config", some (.obj node.config)),
      ("retry_policy", node.retry_policy.map RetryPolicy.model_dump)])

/-- `Edge.model_dump`: the names of the fields, not their aliases. -/
def Edge.model_dump (edge : Edge) : Json :=
  .obj (exclude_none
    [("from_node", some (.str edge.from_node)), ("to_node", some (.str edge.to_node)),
      ("condition", edge.condition.map .str)])

/-- `WorkflowDefinition.model_dump(exclude_none=True, mode="json")`. -/
def WorkflowDefinition.model_dump (d : WorkflowDefinition) : Json :=
  .obj (exclude_none
    [("name", some (.str d.name)), ("description", some (.str d.description)),
      ("nodes", some (.arr (d.nodes.map Node.model_dump))),
      ("edges", some (.arr (d.edges.map Edge.model_dump))),
      ("default_retry_policy", d.default_retry_policy.map RetryPolicy.model_dump)])

/-- The default of `backoff_multiplier` passes its check. -/
theorem one_le_backoff_multiplier : (1 : ℚ) ≤ 2 := by norm_num

section Models

variable (py : Pydantic)

/-- `RetryPolicy.model_validate`. -/
def RetryPolicy.model_validate : Json → Validated RetryPolicy
  | .obj o =>
    (((field o ["max_attempts"] (some ⟨3, by simp⟩) (validate_positive_int py (some 10))).both
      (field o ["initial_interval"] (some ⟨1, by simp⟩) (validate_positive_int py none))).both
      ((field o ["max_interval"] (some ⟨3600, by simp⟩) (validate_positive_int py none)).both
        (field o ["backoff_multiplier"] (some ⟨2, one_le_backoff_multiplier⟩)
          (validate_float_ge_one py)))).map
      fun p =>
        { max_attempts := p.1.1, initial_interval := p.1.2, max_interval := p.2.1
          backoff_multiplier := p.2.2
          max_attempts_ge := p.1.1.2.1, max_attempts_le := p.1.1.2.2 10 rfl
          initial_interval_ge := p.1.2.2.1, max_interval_ge := p.2.1.2.1
          backoff_multiplier_ge := p.2.2.2 }
  | _ => .fail "model_type"

/-- `Node.model_validate`. -/
def Node.model_validate : Json → Validated Node
  | .obj o =>
    (((field o ["id"] none validate_nonempty_str).both
      (field o ["type"] none validate_nonempty_str)).both
      ((field o ["name"] (some "") validate_str).both
        ((field o ["config"] (some []) validate_dict).both
          (field o ["retry_policy"] (some none)
            (validate_optional (RetryPolicy.model_validate py)))))).map
      fun p =>
        { id := p.1.1, type := p.1.2, name := p.2.1, config := p.2.2.1
          retry_policy := p.2.2.2, id_length := p.1.1.2, type_length := p.1.2.2 }
  | _ => .fail "model_type"

/-- `Edge.model_validate`; `populate_by_name` adds the second names. If both are there the
alias is taken. -/
def Edge.model_validate : Json → Validated Edge
  | .obj o =>
    ((field o ["from", "from_node"] none validate_str).both
      ((field o ["to", "to_node"] none validate_str).both
        (field o ["condition"] (some none) (validate_optional validate_str)))).map
      fun p => { from_node := p.1, to_node := p.2.1, condition := p.2.2 }
  | _ => .fail "model_type"

/-- `WorkflowDefinition.model_validate`. -/
def WorkflowDefinition.model_validate : Json → Validated WorkflowDefinition
  | .obj o =>
    (((field o ["name"] none validate_nonempty_str).both
      (field o ["description"] (some "") validate_str)).both
      ((field o ["nodes"] none (validate_list (Node.model_validate py))).both
        ((field o ["edges"] (some []) (validate_list Edge.model_validate)).both
          (field o ["default_retry_policy"] (some none)
            (validate_optional (RetryPolicy.model_validate py)))))).map
      fun p =>
        { name := p.1.1, description := p.1.2, nodes := p.2.1, edges := p.2.2.1
          default_retry_policy := p.2.2.2, name_length := p.1.1.2 }
  | _ => .fail "model_type"

end Models

/-! ## What is dumped is validated -/

section RoundTrip

variable (py : Pydantic)

theorem validate_nonempty_str_of_ne {s : String} (h : s ≠ "") :
    validate_nonempty_str (.str s) = .ok ⟨s, h⟩ := dif_pos h

theorem validate_positive_int_ofNat {le : Option ℕ} {n : ℕ} (hge : 1 ≤ n)
    (hle : ∀ m ∈ le, n ≤ m) :
    validate_positive_int py le (.int n) = .ok ⟨n, hge, hle⟩ := by
  unfold validate_positive_int lax_int
  dsimp only
  rw [dif_pos (by exact_mod_cast hge), dif_pos (by simpa using hle)]
  simp only [Int.toNat_natCast]

theorem validate_float_ge_one_of_le {q : ℚ} (h : 1 ≤ q) :
    validate_float_ge_one py (.float q) = .ok ⟨q, h⟩ := dif_pos h

/-- A list is validated item by item. -/
theorem validate_items_map {α β : Type} {validate : Json → Validated β} {dump : α → Json}
    {f : α → β} (h : ∀ a, validate (dump a) = .ok (f a)) (as : List α) (i : ℕ) :
    validate_items validate i (as.map dump) = .ok (as.map f) := by
  induction as generalizing i with
  | nil => rfl
  | cons a as ih =>
      rw [List.map_cons, validate_items, h, ih, Validated.within_ok, Validated.both_ok]
      rfl

/-- A list of dumps validates to the list, if each dump does. -/
theorem validate_list_map {α : Type} {validate : Json → Validated α} {dump : α → Json}
    (h : ∀ a, validate (dump a) = .ok a) (as : List α) :
    validate_list validate (.arr (as.map dump)) = .ok as := by
  have hitems := validate_items_map h as 0
  rw [List.map_id_fun'] at hitems
  exact hitems

/-- A field that is there. -/
theorem field_of_lookup {α : Type} {o : JsonObject} {name : String} {default : Option α}
    {validate : Json → Validated α} {v : Json} {a : α} (hlookup : o.lookup name = some v)
    (hv : validate v = .ok a) : field o [name] default validate = .ok a := by
  unfold field
  rw [List.findSome?_cons, hlookup]
  dsimp only [Option.map_some]
  rw [hv, Validated.within_ok]

/-- A field that is not there and has a default. -/
theorem field_default {α : Type} {o : JsonObject} {name : String} {a : α}
    (validate : Json → Validated α) (hlookup : o.lookup name = none) :
    field o [name] (some a) validate = .ok a := by
  unfold field
  rw [List.findSome?_cons, hlookup]
  rfl

/-- A field that is there under its name and not under its alias. This is how the edges of
a dump are read. -/
theorem field_of_name {α : Type} {o : JsonObject} {key name : String} {default : Option α}
    {validate : Json → Validated α} {v : Json} {a : α} (hkey : o.lookup key = none)
    (hlookup : o.lookup name = some v) (hv : validate v = .ok a) :
    field o [key, name] default validate = .ok a := by
  unfold field
  rw [List.findSome?_cons, hkey, Option.map_none]
  dsimp only
  rw [List.findSome?_cons, hlookup]
  dsimp only [Option.map_some]
  rw [hv, Validated.within_ok]

theorem RetryPolicy.model_validate_model_dump (policy : RetryPolicy) :
    RetryPolicy.model_validate py policy.model_dump = .ok policy := by
  have hten : ∀ m ∈ some 10, policy.max_attempts ≤ m := by
    intro m hm
    cases hm
    exact policy.max_attempts_le
  -- the intervals have no upper bound
  have hnone : ∀ n : ℕ, ∀ m ∈ (none : Option ℕ), n ≤ m := by
    intro n m hm
    cases hm
  unfold RetryPolicy.model_dump RetryPolicy.model_validate
  dsimp only
  rw [field_of_lookup rfl (validate_positive_int_ofNat py policy.max_attempts_ge hten),
    field_of_lookup rfl (validate_positive_int_ofNat py policy.initial_interval_ge (hnone _)),
    field_of_lookup rfl (validate_positive_int_ofNat py policy.max_interval_ge (hnone _)),
    field_of_lookup rfl (validate_float_ge_one_of_le py policy.backoff_multiplier_ge)]
  rfl

/-- A policy is dumped as an object, so it is not taken for `None`. -/
theorem validate_optional_policy (policy : RetryPolicy) :
    validate_optional (RetryPolicy.model_validate py) policy.model_dump = .ok (some policy) := by
  show (RetryPolicy.model_validate py policy.model_dump).map some = _
  rw [RetryPolicy.model_validate_model_dump]
  rfl

theorem Node.model_validate_model_dump (node : Node) :
    Node.model_validate py node.model_dump = .ok node := by
  obtain ⟨id, type, name, config, retry_policy, hid, htype⟩ := node
  unfold Node.model_dump Node.model_validate
  dsimp only
  rw [field_of_lookup rfl (validate_nonempty_str_of_ne hid),
    field_of_lookup rfl (validate_nonempty_str_of_ne htype),
    field_of_lookup rfl (show validate_str (.str name) = .ok name from rfl),
    field_of_lookup rfl (show validate_dict (.obj config) = .ok config from rfl)]
  -- the dump leaves out a policy that is `None`, and the default puts it back
  cases retry_policy with
  | none =>
      rw [field_default _ rfl]
      rfl
  | some policy =>
      rw [field_of_lookup rfl (validate_optional_policy py policy)]
      rfl

/-- The dump has no member `from` and no member `to`: the names are found. -/
theorem Edge.model_validate_model_dump (edge : Edge) :
    Edge.model_validate edge.model_dump = .ok edge := by
  obtain ⟨from_node, to_node, condition⟩ := edge
  unfold Edge.model_dump Edge.model_validate
  dsimp only
  cases condition with
  | none =>
      rw [field_of_name rfl rfl (show validate_str (.str from_node) = .ok from_node from rfl),
        field_of_name rfl rfl (show validate_str (.str to_node) = .ok to_node from rfl),
        field_default _ rfl]
      rfl
  | some condition =>
      rw [field_of_name rfl rfl (show validate_str (.str from_node) = .ok from_node from rfl),
        field_of_name rfl rfl (show validate_str (.str to_node) = .ok to_node from rfl),
        field_of_lookup rfl (show validate_optional validate_str (.str condition)
          = .ok (some condition) from rfl)]
      rfl

/-- **The stored definition is the definition.** From the leaves up: strings and numbers
are read as they are, lists element by element, and a field that was left out because it
was `None` takes its default, which is `None`. -/
theorem WorkflowDefinition.model_validate_model_dump (d : WorkflowDefinition) :
    WorkflowDefinition.model_validate py d.model_dump = .ok d := by
  obtain ⟨name, description, nodes, edges, default_retry_policy, hname⟩ := d
  have hnodes := validate_list_map (Node.model_validate_model_dump py) nodes
  have hedges := validate_list_map Edge.model_validate_model_dump edges
  unfold WorkflowDefinition.model_dump WorkflowDefinition.model_validate
  dsimp only
  rw [field_of_lookup rfl (validate_nonempty_str_of_ne hname),
    field_of_lookup rfl (show validate_str (.str description) = .ok description from rfl),
    field_of_lookup rfl hnodes, field_of_lookup rfl hedges]
  cases default_retry_policy with
  | none =>
      rw [field_default _ rfl]
      rfl
  | some policy =>
      rw [field_of_lookup rfl (validate_optional_policy py policy)]
      rfl

end RoundTrip

end EventFlow
