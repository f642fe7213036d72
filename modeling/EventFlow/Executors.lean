/-
`services/executor_registry.py`: the executors whose results or configuration
the rest of the development looks into.

`ConditionExecutor.execute` evaluates an expression over the workflow input and
the upstream outputs and selects one of two paths. What the expression
evaluates to is an argument here: `evaluated` is what
`evaluate_condition_expression` returns or raises.
-/
import EventFlow.Runtime

set_option autoImplicit false

namespace EventFlow

/-- `key in config`. A key whose value is `None` is there. -/
def JsonObject.has (o : JsonObject) (key : String) : Bool := (o.lookup key).isSome

namespace ConditionExecutor

/-- The alternatives of `(import|exec|eval|os|sys|open)`. The pattern has no word
boundaries, so `position` is as bad as `os`. -/
def disallowed_words : List String := ["import", "exec", "eval", "os", "sys", "open"]

/-- `word` stands somewhere in a text. -/
def occurs (word : List Char) : List Char → Bool
  | [] => word.isEmpty
  | c :: rest => word.isPrefixOf (c :: rest) || occurs word rest

/-- `re.search` for one of the words. It looks at the expression as a whole, at ids and
literals in it too. -/
def has_disallowed_word (expr : String) : Bool :=
  disallowed_words.any fun word => occurs word.toList expr.toList

/-- `ConditionExecutor.validate_config`. The paths only have to be there. The expression
must be there and be harmless, and it is not parsed. -/
def validate_config (config : JsonObject) : Except AppError Unit :=
  match ["expression", "true_path", "false_path"].find? fun name => !config.has name with
  | some field_name => .error
      { message := s!"Missing '{field_name}' in condition executor config",
        code := "invalid_executor_config" }
  | none =>
    match JsonObject.get config "expression" with
    | .str expr =>
      if has_disallowed_word expr then
        .error { message := "Unsafe expression detected", code := "invalid_executor_config" }
      else .ok ()
    | _ => .error
        { message := "'expression' must be a string", code := "invalid_executor_config" }

/-- The path a condition selects. `true_path` or `false_path`, by what the expression has
come to; a path that is missing is `None`. -/
def path (config : JsonObject) (result : Bool) : Json :=
  if result then JsonObject.get config "true_path" else JsonObject.get config "false_path"

/-- `{"result": result, "next_node": next_node}`. The worker reads `next_node` from it
when it looks for the branches that were not taken. -/
def output (config : JsonObject) (result : Bool) : JsonObject :=
  [("result", .bool result), ("next_node", path config result)]

/-- `ConditionExecutor.execute`. An error of the expression makes a failed result and
raises nothing. -/
def execute (config : JsonObject) (evaluated : Except AppError Bool) : ExecutorResult :=
  match evaluated with
  | .error exc => { success := false, error := some exc.message }
  | .ok result => { success := true, output := output config result }

end ConditionExecutor

/-- `url.startswith(("http://", "https://"))`. -/
def starts_with_http (url : String) : Bool :=
  "http://".toList.isPrefixOf url.toList || "https://".toList.isPrefixOf url.toList

/-- The two checks that `HttpExecutor` and `WebhookExecutor` make of their URL
field: it is there, and it is an http URL. -/
def validate_url_field (executor field_name : String) (config : JsonObject) :
    Except AppError Unit :=
  if !config.has field_name then
    .error { message := s!"Missing '{field_name}' in {executor} executor config",
             code := "invalid_executor_config" }
  else
    match JsonObject.get config field_name with
    | .str url =>
      if starts_with_http url then .ok ()
      else .error { message := s!"Invalid '{field_name}' in {executor} executor config",
                    code := "invalid_executor_config" }
    | _ => .error { message := s!"Invalid '{field_name}' in {executor} executor config",
                    code := "invalid_executor_config" }

/-- `HttpExecutor.validate_config`. -/
def HttpExecutor.validate_config : JsonObject → Except AppError Unit :=
  validate_url_field "http" "url"

/-- `WebhookExecutor.validate_config`. -/
def WebhookExecutor.validate_config : JsonObject → Except AppError Unit :=
  validate_url_field "webhook" "target_url"

/-- `DelayExecutor.validate_config`. A `bool` is an `int` to `isinstance`. -/
def DelayExecutor.validate_config (config : JsonObject) : Except AppError Unit :=
  if !config.has "duration_seconds" then
    .error { message := "Missing 'duration_seconds' in delay executor config",
             code := "invalid_executor_config" }
  else
    match (JsonObject.get config "duration_seconds").number? with
    | some duration =>
      if duration ≤ 0 ∨ 3600 < duration then
        .error { message := "'duration_seconds' must be a positive number and at most 3600",
                 code := "invalid_executor_config" }
      else .ok ()
    | none => .error { message := "'duration_seconds' must be a positive number and at most 3600",
                       code := "invalid_executor_config" }

/-- `TransformExecutor.validate_config`. -/
def TransformExecutor.validate_config (config : JsonObject) : Except AppError Unit :=
  if config.has "mapping_rules" then .ok ()
  else .error
    { message := "Missing 'mapping_rules' in transform executor config",
      code := "invalid_executor_config" }

/-- `NotificationExecutor.validate_config`. -/
def NotificationExecutor.validate_config (config : JsonObject) : Except AppError Unit :=
  if config.has "message" then .ok ()
  else .error
    { message := "Missing 'message' in notification executor config",
      code := "invalid_executor_config" }

/-- `_default_registry`, which `get_executor_registry` gives to the API and to the
workers. A type that is not in it fails validation, and so no stored definition has one.
-/
def default_registry : ExecutorRegistry := fun executor_type =>
  if executor_type = "http" then some ⟨HttpExecutor.validate_config⟩
  else if executor_type = "delay" then some ⟨DelayExecutor.validate_config⟩
  else if executor_type = "condition" then some ⟨ConditionExecutor.validate_config⟩
  else if executor_type = "transform" then some ⟨TransformExecutor.validate_config⟩
  else if executor_type = "webhook" then some ⟨WebhookExecutor.validate_config⟩
  else if executor_type = "notification" then some ⟨NotificationExecutor.validate_config⟩
  else none

/-- Conditions and transforms have a type like all nodes. -/
theorem condition_ne_empty : "condition" ≠ "" := by
  intro h
  have hlength := congrArg String.length h
  revert hlength
  decide

theorem transform_ne_empty : "transform" ≠ "" := by
  intro h
  have hlength := congrArg String.length h
  revert hlength
  decide

end EventFlow
