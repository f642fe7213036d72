/-
`queue/publisher.py`: how a job is written to the stream and read from it, and
the idempotency key that `process_job` gives to an executor.

A payload is five string fields; the UUIDs and the attempt go through `str` and
back. The key joins an execution id, a node id and an attempt with colons. The
node id in the middle is any text, with colons or digits of its own; what makes
the key unique is that the first part has a fixed length and the last part has
no colon.
-/
import EventFlow.Runtime

set_option autoImplicit false

namespace EventFlow

open PyStr

/-! ## Payloads -/

/-- The fields of a stream entry, a `dict[str, str]`. -/
abbrev StreamFields := List (String × String)

/-- The values of a job. -/
structure JobPayload where
  execution_id : UUID
  node_execution_id : UUID
  workflow_version_id : UUID
  node_id : String
  attempt : ℤ

/-- How a payload is refused. -/
inductive PayloadError where
  | key_error (key : String)
  | value_error (text : String)

/-- `serialize_job_payload`. -/
def serialize_job_payload (execution_id node_execution_id workflow_version_id : UUID)
    (node_id : String) (attempt : ℕ) : StreamFields :=
  [("execution_id", execution_id.str),
    ("node_execution_id", node_execution_id.str),
    ("workflow_version_id", workflow_version_id.str),
    ("node_id", node_id),
    ("attempt", toString attempt)]

/-- `fields[key]`. -/
def StreamFields.item (fields : StreamFields) (key : String) : Except PayloadError String :=
  match fields.lookup key with
  | some text => .ok text
  | none => .error (.key_error key)

/-- `uuid.UUID(fields[key])`. -/
def uuid_field (u : Unicode) (fields : StreamFields) (key : String) : Except PayloadError UUID :=
  match fields.item key with
  | .error err => .error err
  | .ok text =>
    match UUID.of_str u text with
    | some uuid => .ok uuid
    | none => .error (.value_error text)

/-- `int(fields[key])`. -/
def int_field (u : Unicode) (fields : StreamFields) (key : String) : Except PayloadError ℤ :=
  match fields.item key with
  | .error err => .error err
  | .ok text =>
    match PyStr.int u 10 text.toList with
    | some n => .ok n
    | none => .error (.value_error text)

/-- `deserialize_job_payload`. -/
def deserialize_job_payload (u : Unicode) (fields : StreamFields) :
    Except PayloadError JobPayload := do
  let execution_id ← uuid_field u fields "execution_id"
  let node_execution_id ← uuid_field u fields "node_execution_id"
  let workflow_version_id ← uuid_field u fields "workflow_version_id"
  let node_id ← fields.item "node_id"
  let attempt ← int_field u fields "attempt"
  return { execution_id, node_execution_id, workflow_version_id, node_id, attempt }

theorem item_of_lookup {fields : StreamFields} {key text : String}
    (h : fields.lookup key = some text) : fields.item key = .ok text := by
  unfold StreamFields.item
  rw [h]

theorem uuid_field_of_lookup (u : Unicode) {fields : StreamFields} {key : String} {uuid : UUID}
    (h : fields.lookup key = some uuid.str) : uuid_field u fields key = .ok uuid := by
  unfold uuid_field
  rw [item_of_lookup h]
  dsimp only
  rw [UUID.of_str_str]

theorem int_toString (u : Unicode) (n : ℕ) : PyStr.int u 10 (toString n).toList = some (n : ℤ) := by
  have hread := int_padded u 10 (by decide) (by decide) 0 n
  rw [List.replicate_zero, List.nil_append] at hread
  rw [Nat.toString_eq_repr, Nat.toList_repr]
  exact hread

theorem int_field_of_lookup (u : Unicode) {fields : StreamFields} {key : String} {n : ℕ}
    (h : fields.lookup key = some (toString n)) : int_field u fields key = .ok (n : ℤ) := by
  unfold int_field
  rw [item_of_lookup h]
  dsimp only
  rw [int_toString]

/-- What is serialized is read back. -/
theorem deserialize_serialize (u : Unicode)
    (execution_id node_execution_id workflow_version_id : UUID) (node_id : String)
    (attempt : ℕ) :
    deserialize_job_payload u (serialize_job_payload execution_id node_execution_id
        workflow_version_id node_id attempt)
      = .ok { execution_id, node_execution_id, workflow_version_id, node_id
              attempt := (attempt : ℤ) } := by
  -- the five keys are distinct, so each is found with its own text
  have hexec := @uuid_field_of_lookup u (serialize_job_payload execution_id node_execution_id
    workflow_version_id node_id attempt) "execution_id" execution_id rfl
  have hnode := @uuid_field_of_lookup u (serialize_job_payload execution_id node_execution_id
    workflow_version_id node_id attempt) "node_execution_id" node_execution_id rfl
  have hversion := @uuid_field_of_lookup u (serialize_job_payload execution_id node_execution_id
    workflow_version_id node_id attempt) "workflow_version_id" workflow_version_id rfl
  have hid := @item_of_lookup (serialize_job_payload execution_id node_execution_id
    workflow_version_id node_id attempt) "node_id" node_id rfl
  have hattempt := @int_field_of_lookup u (serialize_job_payload execution_id node_execution_id
    workflow_version_id node_id attempt) "attempt" attempt rfl
  unfold deserialize_job_payload
  rw [hexec, hnode, hversion, hid, hattempt]
  rfl

/-! ## Keys -/

/-- The key of `process_job`, taken apart. -/
theorem idempotency_key_toList (execution_id : UUID) (node_id : String) (attempt : ℕ) :
    s!"{uuid_str execution_id.int}:{node_id}:{attempt}".toList
      = execution_id.str.toList ++ ':' :: (node_id.toList ++ ':' :: Nat.toDigits 10 attempt) := by
  have hcolon : ":".toList = [':'] := rfl
  simp only [toString, String.toList_append, hcolon, Nat.toList_repr, List.append_assoc,
    List.singleton_append]
  rfl

theorem colon_not_mem_toDigits (n : ℕ) : ':' ∉ Nat.toDigits 10 n := by
  intro h
  obtain ⟨d, hd, heq⟩ := Numerals.mem_toDigits (by decide) h
  have hne : ∀ d < 10, ':' ≠ d.digitChar := by decide
  exact hne d hd heq

/-- The parts of a key are known from it. -/
theorem idempotency_key_inj {e₁ e₂ : UUID} {n₁ n₂ : String} {a₁ a₂ : ℕ}
    (h : s!"{uuid_str e₁.int}:{n₁}:{a₁}" = s!"{uuid_str e₂.int}:{n₂}:{a₂}") :
    e₁ = e₂ ∧ n₁ = n₂ ∧ a₁ = a₂ := by
  have hlist := congrArg String.toList h
  rw [idempotency_key_toList, idempotency_key_toList] at hlist
  -- the first part has 36 characters on both sides
  have hlength : e₁.str.toList.length = e₂.str.toList.length := by
    rw [length_uuid_str, length_uuid_str]
  obtain ⟨hexec, hrest⟩ := List.append_inj hlist hlength
  rw [List.cons.injEq] at hrest
  -- the last colon is the one before the attempt
  obtain ⟨hnode, hattempt⟩ := Numerals.append_separator_inj (colon_not_mem_toDigits a₁)
    (colon_not_mem_toDigits a₂) hrest.2
  exact ⟨UUID.str_injective (String.toList_inj.mp hexec), String.toList_inj.mp hnode,
    Numerals.toDigits_ten_injective hattempt⟩

/-- **Payloads and keys are faithful.** What is published is read back as it was, and two
invocations of an executor have one key only if they are of one execution, node and
attempt. For the payload every field is read back from its own text. For the key, the
execution ids have one length, so they are the same number of characters at the front; the
attempt is all digits, so it is what stands behind the last colon; and what is left is the
node id. -/
theorem job_payload_and_key_faithful (u : Unicode) :
    (∀ (execution_id node_execution_id workflow_version_id : UUID) (node_id : String)
      (attempt : ℕ),
      deserialize_job_payload u (serialize_job_payload execution_id node_execution_id
          workflow_version_id node_id attempt)
        = .ok { execution_id, node_execution_id, workflow_version_id, node_id
                attempt := (attempt : ℤ) }) ∧
    ∀ (e₁ e₂ : UUID) (x₁ x₂ : Execution) (t₁ t₂ : Table String NodeExecution)
      (d₁ d₂ : WorkflowDefinition) (node₁ node₂ : Node) (n₁ n₂ : String) (a₁ a₂ : ℕ),
      (build_context e₁.int x₁ t₁ d₁ node₁ n₁ a₁).idempotency_key
          = (build_context e₂.int x₂ t₂ d₂ node₂ n₂ a₂).idempotency_key ↔
        e₁ = e₂ ∧ n₁ = n₂ ∧ a₁ = a₂ := by
  refine ⟨deserialize_serialize u, ?_⟩
  intro e₁ e₂ x₁ x₂ t₁ t₂ d₁ d₂ node₁ node₂ n₁ n₂ a₁ a₂
  constructor
  · intro h
    exact idempotency_key_inj h
  · rintro ⟨rfl, rfl, rfl⟩
    rfl

end EventFlow
