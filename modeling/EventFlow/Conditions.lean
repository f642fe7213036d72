/-
`services/executor_registry.py`: condition expressions, and the executors that
read the data of a node: `ConditionExecutor.execute` and
`TransformExecutor.execute`.

An expression is taken apart by a regular expression into a path, an operator and
a literal. The pattern is written out here as the items of `Library.Backtracking`,
which tries them as Python's `re` does. A path is followed through the dicts of
the data. A literal is what `json.loads` reads it as, or else its own text without
quotes. `json.loads` is a parameter; `none` stands for a `ValueError`. The two are
compared as Python compares them.
-/
import EventFlow.Executors
import EventFlow.Library.Backtracking
import EventFlow.PyStr

set_option autoImplicit false

namespace EventFlow

open Backtracking

/-! ## Python's comparisons -/

/-- The name in an error of the type of a value. -/
def Json.type_name : Json → String
  | .null => "NoneType"
  | .bool _ => "bool"
  | .int _ => "int"
  | .float _ => "float"
  | .str _ => "str"
  | .arr _ => "list"
  | .obj _ => "dict"

mutual

/-- How two values are ordered. The error names the types of the two values that cannot
be. Numbers and booleans are ordered by their values among each other, strings by code
points, lists item by item, and nothing else is ordered; `None < 1` is an error and not
`False`. -/
def Json.py_order : Json → Json → Except (String × String) Ordering
  | .str a, .str b => .ok (compareOfLessAndEq a b)
  | .arr a, .arr b => Json.py_order_items a b
  | a, b =>
    match a.number?, b.number? with
    | some x, some y => .ok (compareOfLessAndEq x y)
    | _, _ => .error (a.type_name, b.type_name)

/-- Lists are ordered by their first items that differ. Items that are equal are passed
over, so two of them that cannot be ordered do no harm where they are equal. -/
def Json.py_order_items : List Json → List Json → Except (String × String) Ordering
  | [], [] => .ok .eq
  | [], _ :: _ => .ok .lt
  | _ :: _, [] => .ok .gt
  | a :: as, b :: bs => if a.py_eq b then Json.py_order_items as bs else Json.py_order a b

end

/-- The operators, in the order of the pattern. -/
inductive Operator where
  | eq
  | ne
  | ge
  | le
  | gt
  | lt
deriving DecidableEq, Repr

namespace Operator

def all : List Operator := [.eq, .ne, .ge, .le, .gt, .lt]

def text : Operator → String
  | .eq => "=="
  | .ne => "!="
  | .ge => ">="
  | .le => "<="
  | .gt => ">"
  | .lt => "<"

/-- The branch that a text leads to. The source compares the captured text with one
operator after the other, and `<=` is what is left. -/
def of_text (operator : List Char) : Operator :=
  if operator = "==".toList then .eq
  else if operator = "!=".toList then .ne
  else if operator = ">".toList then .gt
  else if operator = "<".toList then .lt
  else if operator = ">=".toList then .ge
  else .le

/-- Whether an order satisfies an operator. -/
def holds : Operator → Ordering → Bool
  | .eq, o => o.isEq
  | .ne, o => o.isNe
  | .ge, o => o.isGE
  | .le, o => o.isLE
  | .gt, o => o.isGT
  | .lt, o => o.isLT

/-- The text of a `TypeError`. -/
def order_error (operator : Operator) (types : String × String) : String :=
  s!"'{operator.text}' not supported between instances of '{types.1}' and '{types.2}'"

/-- `left operator right`; the error is the text of a `TypeError`. Two values can
always be tested for equality. -/
def apply (operator : Operator) (left right : Json) : Except String Bool :=
  match operator with
  | .eq => .ok (left.py_eq right)
  | .ne => .ok (!left.py_eq right)
  | _ =>
    match left.py_order right with
    | .ok o => .ok (operator.holds o)
    | .error types => .error (operator.order_error types)

@[simp] theorem of_text_text (operator : Operator) : of_text operator.text.toList = operator := by
  cases operator <;> rfl

theorem mem_all (operator : Operator) : operator ∈ all := by
  cases operator <;> decide

end Operator

/-! ## `evaluate_condition_expression` -/

section Evaluation

variable (u : PyStr.Unicode) (loads : String → Option Json)

/-- `[\w.]` `\w` is letters, digits and the underscore, for all of Unicode. -/
def path_char (c : Char) : Bool := u.word c || c == '.'

/-- What `.` matches. The pattern is used without `re.DOTALL`, so a line break is not
matched. -/
def any_char (c : Char) : Bool := c != '\n'

/-- `\s*` -/
def blanks : Backtracking.Part Char := ⟨.greedy 0 PyStr.isspace, false⟩

/-- `\s*(.+?)\s*$` The lazy group takes one character at least, and `$` also matches
before a line break that ends the text. -/
def LITERAL_RE : List (Backtracking.Part Char) := trimmed PyStr.isspace any_char '\n'

/-- `(==|!=|>=|<=|>|<)`, and what follows it. The two-character operators come before the
ones that they begin with. -/
def OPERATOR_RE : List (Backtracking.Part Char) :=
  ⟨.words (Operator.all.map fun operator => operator.text.toList), true⟩ :: LITERAL_RE

/-- `_COMPARISON_RE`. A match begins where the text does, so the `^` adds nothing. -/
def COMPARISON_RE : List (Backtracking.Part Char) :=
  blanks :: ⟨.greedy 1 (path_char u), true⟩ :: blanks :: OPERATOR_RE

/-- The loop of `_resolve_path`. A step into something that is not a dict, or to a key
that is not there, gives `None`, and so do all later steps. -/
def follow : List String → Json → Json
  | [], value => value
  | part :: parts, .obj members => follow parts (JsonObject.get members part)
  | _ :: _, _ => .null

/-- `path.split(".")` -/
def path_parts (path : List Char) : List String := (path.splitOn '.').map String.ofList

/-- `_resolve_path`. An empty path is the one empty key, and not the data itself. -/
def resolve_path (data : JsonObject) (path : List Char) : Json :=
  follow (path_parts path) (.obj data)

/-- The two quotes. -/
def is_quote (c : Char) : Bool := "'\"".toList.contains c

/-- `_parse_literal`. It is not an error if the text is no JSON: then it stands for
itself, with the quotes at both ends taken off. -/
def parse_literal (raw : List Char) : Json :=
  let raw := PyStr.strip PyStr.isspace raw
  match loads (String.ofList raw) with
  | some value => value
  | none => .str (String.ofList (PyStr.strip is_quote raw))

/-- The error of a comparison. Only a `TypeError` is caught, that is, two values without
an order; everything else that a comparison does is defined. -/
def evaluation_error (e : String) : AppError :=
  { message := s!"Type error evaluating condition: {e}", code := "evaluation_error" }

/-- `evaluate_condition_expression`. An expression that the pattern does not take is an
`invalid_expression`, whatever the data are. -/
def evaluate_condition_expression (expression : String) (data : JsonObject) :
    Except AppError Bool :=
  match match? (COMPARISON_RE u) expression.toList with
  | some [left_path, operator, right_raw] =>
    ((Operator.of_text operator).apply (resolve_path data left_path)
      (parse_literal loads right_raw)).mapError evaluation_error
  | _ => .error { message := s!"Unsupported condition expression: {expression}",
                  code := "invalid_expression" }

end Evaluation

/-! ## The executors -/

/-- The data that expressions and rules look into. An output is found under the id of its
parent, as the worker has put it there. -/
def ExecutionContext.data (context : ExecutionContext) : JsonObject :=
  [("input", .obj context.workflow_input), ("upstream", .obj context.upstream_outputs)]

/-- `ConditionExecutor.execute` with its expression evaluated. A configuration without an
expression raises; `validate_config` has seen to it that there is one. -/
def ConditionExecutor.execute_in (u : PyStr.Unicode) (loads : String → Option Json)
    (context : ExecutionContext) : Except PyError ExecutorResult :=
  match context.config.lookup "expression" with
  | none => .error (.key_error "expression")
  | some (.str expression) => .ok (ConditionExecutor.execute context.config
      (evaluate_condition_expression u loads expression context.data))
  | some v => .error (.type_error
      s!"expected string or bytes-like object, got '{v.type_name}'")

namespace TransformExecutor

/-- What a rule gives, if it gives anything. A rule is a value, or an object that says
where the value comes from; `value` is looked at first, and an object with neither of the
two is passed over. -/
def apply_rule (data : JsonObject) (rule : Json) : Except PyError (Option Json) :=
  match rule with
  | .obj members =>
    match members.lookup "value", members.lookup "source" with
    | some v, _ => .ok (some v)
    | none, some (.str source) => .ok (some (resolve_path data source.toList))
    | none, some v => .error (.attribute_error
        s!"'{v.type_name}' object has no attribute 'split'")
    | none, none => .ok none
  | v => .ok (some v)

/-- The loop over `mapping_rules.items()`. They are applied in the order of the
configuration, and a key is written by its own rule alone. -/
def apply_rules (data : JsonObject) : JsonObject → List (String × Json) →
    Except PyError JsonObject
  | output, [] => .ok output
  | output, (key, rule) :: rules =>
    match apply_rule data rule with
    | .error e => .error e
    | .ok none => apply_rules data output rules
    | .ok (some v) => apply_rules data (output.assign key v) rules

/-- `TransformExecutor.execute`. -/
def execute (context : ExecutionContext) : Except PyError ExecutorResult :=
  match (context.config.lookup "mapping_rules").getD (.obj []) with
  | .obj mapping_rules =>
    (apply_rules context.data [] mapping_rules).map fun output => { success := true, output }
  | v => .error (.attribute_error s!"'{v.type_name}' object has no attribute 'items'")

end TransformExecutor

end EventFlow
