/-
`transport/contracts.py` and the response messages of
`proto/eventflow/execution_engine.proto`, with the functions that take one to
the other: `_map_*_dto_to_pb` of the servicer and `_map_*` of the gRPC client.

Ids travel as strings; `UUID(str(id))` is `id`, so a message is given the ids
themselves. An optional field, or one of message type, is present or not, which
is what `HasField` sees. The servicer sets it only if the value is truthy, and
so an empty object and an empty string come back as `None`.

DTOs are compared as pydantic does, field by field with `==`.
-/
import EventFlow.Protobuf

set_option autoImplicit false

namespace EventFlow

/-! ## DTOs and messages -/

structure NodeExecutionDTO where
  id : ℕ
  execution_id : ℕ
  node_id : String
  node_type : String
  status : String
  attempt : ℕ
  max_attempts : ℕ
  input_payload : Option JsonObject := none
  output_payload : Option JsonObject := none
  error_message : Option String := none

structure ExecutionDTO where
  id : ℕ
  workflow_id : ℕ
  workflow_version_id : ℕ
  status : String
  input_payload : Option JsonObject := none
  error_message : Option String := none
  node_executions : List NodeExecutionDTO := []

/-- `pb.NodeExecutionDTO`. -/
structure Pb.NodeExecutionDTO (P : Protobuf) where
  id : ℕ
  execution_id : ℕ
  node_id : String
  node_type : String
  status : String
  attempt : ℕ
  max_attempts : ℕ
  input_payload : Option P.Struct
  output_payload : Option P.Struct
  error_message : Option String

/-- `pb.ExecutionDTO`. -/
structure Pb.ExecutionDTO (P : Protobuf) where
  id : ℕ
  workflow_id : ℕ
  workflow_version_id : ℕ
  status : String
  input_payload : Option P.Struct
  error_message : Option String
  node_executions : List (Pb.NodeExecutionDTO P)

/-! ## The mappings -/

section Mappings

variable (P : Protobuf)

/-- An assignment of a natural number to an `int32` field. -/
def int32 (n : ℕ) : Except TransportError ℕ :=
  if n < 2 ^ 31 then .ok n else .error .value_error

/-- `if payload: s = Struct(); s.update(payload); field.CopyFrom(s)`. -/
def struct_field : Option JsonObject → Except TransportError (Option P.Struct)
  | none => .ok none
  | some [] => .ok none
  | some payload => (P.update payload).map some

/-- `if message: field = message`. -/
def string_field : Option String → Option String
  | none => none
  | some message => if message = "" then none else some message

/-- `ExecutionEngineServiceServicer._map_node_execution_dto_to_pb`. -/
def map_node_execution_dto_to_pb (dto : NodeExecutionDTO) :
    Except TransportError (Pb.NodeExecutionDTO P) := do
  let attempt ← int32 dto.attempt
  let max_attempts ← int32 dto.max_attempts
  let input_payload ← struct_field P dto.input_payload
  let output_payload ← struct_field P dto.output_payload
  return {
    id := dto.id, execution_id := dto.execution_id, node_id := dto.node_id
    node_type := dto.node_type, status := dto.status, attempt, max_attempts, input_payload
    output_payload, error_message := string_field dto.error_message }

/-- `ExecutionEngineServiceServicer._map_execution_dto_to_pb`. -/
def map_execution_dto_to_pb (dto : ExecutionDTO) :
    Except TransportError (Pb.ExecutionDTO P) := do
  let input_payload ← struct_field P dto.input_payload
  let node_executions ← dto.node_executions.mapM (map_node_execution_dto_to_pb P)
  return {
    id := dto.id, workflow_id := dto.workflow_id
    workflow_version_id := dto.workflow_version_id, status := dto.status, input_payload
    error_message := string_field dto.error_message, node_executions }

/-- `GrpcExecutionEngineClient._map_node_execution`. -/
def map_node_execution (msg : Pb.NodeExecutionDTO P) : NodeExecutionDTO where
  id := msg.id
  execution_id := msg.execution_id
  node_id := msg.node_id
  node_type := msg.node_type
  status := msg.status
  attempt := msg.attempt
  max_attempts := msg.max_attempts
  input_payload := msg.input_payload.map P.MessageToDict
  output_payload := msg.output_payload.map P.MessageToDict
  error_message := msg.error_message

/-- `GrpcExecutionEngineClient._map_execution`. -/
def map_execution (msg : Pb.ExecutionDTO P) : ExecutionDTO where
  id := msg.id
  workflow_id := msg.workflow_id
  workflow_version_id := msg.workflow_version_id
  status := msg.status
  input_payload := msg.input_payload.map P.MessageToDict
  error_message := msg.error_message
  node_executions := msg.node_executions.map (map_node_execution P)

end Mappings

/-! ## Equality -/

/-- `==` of two nullable dicts. -/
def payload_eq (a b : Option JsonObject) : Prop :=
  Json.py_eq (Json.of_payload a) (Json.of_payload b) = true

/-- `==` of two models. -/
structure NodeExecutionDTO.PyEq (a b : NodeExecutionDTO) : Prop where
  id : a.id = b.id
  execution_id : a.execution_id = b.execution_id
  node_id : a.node_id = b.node_id
  node_type : a.node_type = b.node_type
  status : a.status = b.status
  attempt : a.attempt = b.attempt
  max_attempts : a.max_attempts = b.max_attempts
  input_payload : payload_eq a.input_payload b.input_payload
  output_payload : payload_eq a.output_payload b.output_payload
  error_message : a.error_message = b.error_message

/-- `==` of two models. -/
structure ExecutionDTO.PyEq (a b : ExecutionDTO) : Prop where
  id : a.id = b.id
  workflow_id : a.workflow_id = b.workflow_id
  workflow_version_id : a.workflow_version_id = b.workflow_version_id
  status : a.status = b.status
  input_payload : payload_eq a.input_payload b.input_payload
  error_message : a.error_message = b.error_message
  node_executions : List.Forall₂ NodeExecutionDTO.PyEq a.node_executions b.node_executions

/-- A payload that is a dict: keys are distinct at every level. -/
def IsDict (payload : Option JsonObject) : Prop := (Json.of_payload payload).Distinct

/-- What the columns promise of a DTO that the engine returns: payloads are
dicts, and the counters are of type INTEGER. -/
structure NodeExecutionDTO.Returned (dto : NodeExecutionDTO) : Prop where
  input_payload : IsDict dto.input_payload
  output_payload : IsDict dto.output_payload
  attempt : dto.attempt < 2 ^ 31
  max_attempts : dto.max_attempts < 2 ^ 31

structure ExecutionDTO.Returned (dto : ExecutionDTO) : Prop where
  input_payload : IsDict dto.input_payload
  node_executions : ∀ node ∈ dto.node_executions, node.Returned

/-! ## What survives -/

/-- A payload that is not `{}` and whose integers are doubles. -/
def Survives (payload : Option JsonObject) : Prop :=
  payload ≠ some [] ∧ (Json.of_payload payload).Exact

/-- A DTO without empty payloads, empty messages and integers beyond a double. -/
structure NodeExecutionDTO.Survives (dto : NodeExecutionDTO) : Prop where
  input_payload : EventFlow.Survives dto.input_payload
  output_payload : EventFlow.Survives dto.output_payload
  error_message : dto.error_message ≠ some ""

structure ExecutionDTO.Survives (dto : ExecutionDTO) : Prop where
  input_payload : EventFlow.Survives dto.input_payload
  error_message : dto.error_message ≠ some ""
  node_executions : ∀ node ∈ dto.node_executions, node.Survives

/-- A list comes back if and only if each of its elements does. The servicer raises at the
first element that cannot be written, so the list is written if and only if every element
is. -/
theorem mapM_round_trip_iff {ε α β : Type} {encode : α → Except ε β} {decode : β → α}
    {same : α → α → Prop} {survives : α → Prop} {l : List α}
    (h : ∀ a ∈ l, (∃ b, encode a = .ok b ∧ same (decode b) a) ↔ survives a) :
    (∃ bs, l.mapM encode = .ok bs ∧ List.Forall₂ same (bs.map decode) l) ↔
      ∀ a ∈ l, survives a := by
  induction l with
  | nil => exact iff_of_true ⟨[], rfl, .nil⟩ (by simp)
  | cons a l ih =>
      have ih := ih fun a' ha' => h a' (List.mem_cons_of_mem _ ha')
      rw [List.forall_mem_cons, ← h a List.mem_cons_self, ← ih, List.mapM_cons]
      constructor
      · rintro ⟨bs, hbs, hsame⟩
        cases hb : encode a with
        | error err =>
            rw [hb] at hbs
            cases hbs
        | ok b =>
            cases hrest : l.mapM encode with
            | error err =>
                rw [hb, hrest] at hbs
                cases hbs
            | ok rest =>
                -- the loop has come to the end, element by element
                rw [hb, hrest] at hbs
                cases hbs
                rw [List.map_cons, List.forall₂_cons] at hsame
                exact ⟨⟨b, rfl, hsame.1⟩, rest, rfl, hsame.2⟩
      · rintro ⟨⟨b, hb, hone⟩, rest, hrest, hall⟩
        refine ⟨b :: rest, ?_, List.forall₂_cons.mpr ⟨hone, hall⟩⟩
        rw [hb, hrest]
        rfl

section RoundTrip

variable {P : Protobuf}

/-- A `Struct` gives an object back if and only if its integers are doubles. -/
theorem Protobuf.Laws.round_trip (hP : P.Laws) {o : JsonObject} (hd : (Json.obj o).Distinct) :
    (∃ s, P.update o = .ok s ∧ Json.py_eq (.obj (P.MessageToDict s)) (.obj o) = true) ↔
      (Json.obj o).Exact := by
  constructor
  · rintro ⟨s, hs, heq⟩
    cases ho : Json.stored_members o with
    | none =>
        rw [hP.overflow o ho] at hs
        cases hs
    | some o' =>
        rw [hP.MessageToDict o o' s ho hs] at heq
        have hstored : Json.stored (.obj o) = some (.obj o') := by rw [Json.stored, ho]; rfl
        exact (Json.py_eq_stored _ _ hstored hd).mp heq
  · intro hexact
    obtain ⟨o', ho⟩ := Json.stored_members_of_exact o hexact
    obtain ⟨s, hs⟩ := hP.update o o' ho
    have hstored : Json.stored (.obj o) = some (.obj o') := by rw [Json.stored, ho]; rfl
    refine ⟨s, hs, ?_⟩
    rw [hP.MessageToDict o o' s ho hs]
    exact (Json.py_eq_stored _ _ hstored hd).mpr hexact

/-- A payload field comes back `==` if and only if the payload survives. -/
theorem struct_field_iff (hP : P.Laws) {payload : Option JsonObject} (hd : IsDict payload) :
    (∃ field, struct_field P payload = .ok field ∧
      payload_eq (field.map P.MessageToDict) payload) ↔ Survives payload := by
  match payload with
  | none => exact iff_of_true ⟨none, rfl, rfl⟩ ⟨nofun, trivial⟩
  | some [] =>
      -- the field is left out, and `None` is not `{}`
      refine iff_of_false ?_ fun h => h.1 rfl
      rintro ⟨field, hfield, heq⟩
      cases hfield
      cases heq
  | some (m :: ms) =>
      have hdef : struct_field P (some (m :: ms)) = (P.update (m :: ms)).map some := rfl
      rw [Survives, and_iff_right (by simp), hdef]
      refine Iff.trans ?_ (hP.round_trip hd)
      constructor
      · rintro ⟨field, hfield, heq⟩
        cases hs : P.update (m :: ms) with
        | error err =>
            rw [hs] at hfield
            cases hfield
        | ok s =>
            rw [hs] at hfield
            cases hfield
            exact ⟨s, rfl, heq⟩
      · rintro ⟨s, hs, heq⟩
        refine ⟨some s, ?_, heq⟩
        rw [hs]
        rfl

/-- An optional string comes back if and only if it is not empty. -/
theorem string_field_iff (message : Option String) :
    string_field message = message ↔ message ≠ some "" := by
  cases message with
  | none => exact iff_of_true rfl nofun
  | some message =>
      rw [string_field]
      split
      · -- `if dto.error_message:` leaves the empty string out
        rename_i h
        rw [h]
        exact iff_of_false nofun fun h => h rfl
      · rename_i h
        exact iff_of_true rfl fun heq => h (Option.some.inj heq)

theorem int32_of_lt {n : ℕ} (h : n < 2 ^ 31) : int32 n = .ok n := if_pos h

/-- **One node across the wire.** Field by field. The payloads and the error message can
be lost; the other fields are copied, the two counts of attempts because an INTEGER column
fits an `int32`. -/
theorem node_round_trip_iff (hP : P.Laws) {dto : NodeExecutionDTO} (hdto : dto.Returned) :
    (∃ msg, map_node_execution_dto_to_pb P dto = .ok msg ∧
      (map_node_execution P msg).PyEq dto) ↔ dto.Survives := by
  have hinput := struct_field_iff hP hdto.input_payload
  have houtput := struct_field_iff hP hdto.output_payload
  constructor
  · rintro ⟨msg, hmsg, heq⟩
    simp only [map_node_execution_dto_to_pb, int32_of_lt hdto.attempt,
      int32_of_lt hdto.max_attempts, bind, Except.bind] at hmsg
    cases hin : struct_field P dto.input_payload with
    | error err =>
        rw [hin] at hmsg
        cases hmsg
    | ok input =>
        cases hout : struct_field P dto.output_payload with
        | error err =>
            rw [hin, hout] at hmsg
            cases hmsg
        | ok output =>
            rw [hin, hout] at hmsg
            cases hmsg
            -- the message was built, so both payloads could be written
            exact ⟨hinput.mp ⟨input, hin, heq.input_payload⟩,
              houtput.mp ⟨output, hout, heq.output_payload⟩,
              (string_field_iff _).mp heq.error_message⟩
  · intro h
    obtain ⟨input, hin, hineq⟩ := hinput.mpr h.input_payload
    obtain ⟨output, hout, houteq⟩ := houtput.mpr h.output_payload
    refine ⟨{
      id := dto.id, execution_id := dto.execution_id, node_id := dto.node_id
      node_type := dto.node_type, status := dto.status, attempt := dto.attempt
      max_attempts := dto.max_attempts, input_payload := input, output_payload := output
      error_message := string_field dto.error_message }, ?_, ?_⟩
    · simp only [map_node_execution_dto_to_pb, int32_of_lt hdto.attempt,
        int32_of_lt hdto.max_attempts, bind, Except.bind, hin, hout]
      rfl
    · exact ⟨rfl, rfl, rfl, rfl, rfl, rfl, rfl, hineq, houteq,
        (string_field_iff _).mpr h.error_message⟩

/-- **An execution across the wire.** As for a node, with one payload, and with the nodes
as a list. -/
theorem execution_round_trip_iff (hP : P.Laws) {dto : ExecutionDTO} (hdto : dto.Returned) :
    (∃ msg, map_execution_dto_to_pb P dto = .ok msg ∧ (map_execution P msg).PyEq dto) ↔
      dto.Survives := by
  have hinput := struct_field_iff hP hdto.input_payload
  have hnodes := mapM_round_trip_iff fun node hnode =>
    node_round_trip_iff hP (hdto.node_executions node hnode)
  constructor
  · rintro ⟨msg, hmsg, heq⟩
    simp only [map_execution_dto_to_pb, bind, Except.bind] at hmsg
    cases hin : struct_field P dto.input_payload with
    | error err =>
        rw [hin] at hmsg
        cases hmsg
    | ok input =>
        cases hloop : dto.node_executions.mapM (map_node_execution_dto_to_pb P) with
        | error err =>
            rw [hin, hloop] at hmsg
            cases hmsg
        | ok msgs =>
            rw [hin, hloop] at hmsg
            cases hmsg
            exact ⟨hinput.mp ⟨input, hin, heq.input_payload⟩,
              (string_field_iff _).mp heq.error_message,
              hnodes.mp ⟨msgs, hloop, heq.node_executions⟩⟩
  · intro h
    obtain ⟨input, hin, hineq⟩ := hinput.mpr h.input_payload
    obtain ⟨msgs, hloop, hall⟩ := hnodes.mpr h.node_executions
    refine ⟨{
      id := dto.id, workflow_id := dto.workflow_id
      workflow_version_id := dto.workflow_version_id, status := dto.status
      input_payload := input, error_message := string_field dto.error_message
      node_executions := msgs }, ?_, ?_⟩
    · simp only [map_execution_dto_to_pb, bind, Except.bind, hin, hloop]
      rfl
    · exact ⟨rfl, rfl, rfl, rfl, hineq, (string_field_iff _).mpr h.error_message, hall⟩

end RoundTrip

/-- **When the response mapping is lossless**: for a node, and for an execution with any
number of nodes, exactly when no payload is the empty object, no error message is the
empty string and every integer in a payload is a double. The two directions come from one
computation: each optional field either comes back, or comes back as `None` because the
value was falsy, or, in a payload, has its integers turned into floats, which may not be
equal to them. -/
theorem mapping_lossless_iff (P : Protobuf) (hP : P.Laws) :
    (∀ dto : NodeExecutionDTO, dto.Returned →
      ((∃ msg, map_node_execution_dto_to_pb P dto = .ok msg ∧
        (map_node_execution P msg).PyEq dto) ↔ dto.Survives)) ∧
    ∀ dto : ExecutionDTO, dto.Returned →
      ((∃ msg, map_execution_dto_to_pb P dto = .ok msg ∧ (map_execution P msg).PyEq dto) ↔
        dto.Survives) :=
  ⟨fun _ hdto => node_round_trip_iff hP hdto, fun _ hdto => execution_round_trip_iff hP hdto⟩

/-- An execution that was started without a payload, that is, with `{}`. -/
def started_dto : ExecutionDTO where
  id := 1
  workflow_id := 2
  workflow_version_id := 3
  status := "RUNNING"
  input_payload := some []

/-- It comes back with `None`. -/
theorem not_mapping_lossless : ¬ ∀ (P : Protobuf), P.Laws →
    (∀ dto : NodeExecutionDTO, dto.Returned →
      ∃ msg, map_node_execution_dto_to_pb P dto = .ok msg ∧
        (map_node_execution P msg).PyEq dto) ∧
    ∀ dto : ExecutionDTO, dto.Returned →
      ∃ msg, map_execution_dto_to_pb P dto = .ok msg ∧ (map_execution P msg).PyEq dto := by
  intro h
  obtain ⟨msg, hmsg, heq⟩ := (h struct_pb2 struct_pb2_laws).2 started_dto
    ⟨⟨List.nodup_nil, trivial⟩, nofun⟩
  cases hmsg
  cases heq.input_payload

/-- A nested payload, with a node that has failed. -/
def failed_dto : ExecutionDTO where
  id := 1
  workflow_id := 2
  workflow_version_id := 3
  status := "FAILED"
  input_payload := some [("sizes", .arr [.int 1, .obj [("max", .int 9007199254740991)]])]
  node_executions :=
    [{ id := 4, execution_id := 1, node_id := "a", node_type := "task", status := "DEAD_LETTERED"
       attempt := 3, max_attempts := 3, error_message := some "boom" }]

theorem mapping_lossless_iff_failed : failed_dto.Survives ∧
    ∃ msg, map_execution_dto_to_pb struct_pb2 failed_dto = .ok msg ∧
      (map_execution struct_pb2 msg).PyEq failed_dto := by
  have hnode : ∀ node ∈ failed_dto.node_executions, node.Returned ∧ node.Survives := by
    intro node hnode
    rw [List.mem_singleton.mp hnode]
    exact ⟨⟨trivial, trivial, by decide, by decide⟩, ⟨nofun, trivial⟩, ⟨nofun, trivial⟩, by decide⟩
  have hone : BinaryFloat.binary64.Exact 1 := BinaryFloat.Format.exact_binary64 (by decide)
  have hmax : BinaryFloat.binary64.Exact 9007199254740991 :=
    BinaryFloat.Format.exact_binary64 (by decide)
  have hsurvives : failed_dto.Survives :=
    ⟨⟨by decide, ⟨hone, ⟨hmax, trivial⟩, trivial⟩, trivial⟩, by decide,
      fun node h => (hnode node h).2⟩
  refine ⟨hsurvives, ((mapping_lossless_iff struct_pb2 struct_pb2_laws).2 failed_dto
    ⟨⟨by decide, ⟨trivial, ⟨by decide, trivial, trivial⟩, trivial⟩, trivial⟩,
      fun node h => (hnode node h).1⟩).mpr hsurvives⟩

end EventFlow
