/-
The two `ExecutionEngineClient`s over one engine: `local_execution_client.py`
calls it, `grpc_execution_client.py` goes through the servicer of
`grpc_server.py`.

The engine methods of `services/execution_engine.py` are given here as the
clients see them, on a database and with the DTOs they return. Commands that
write are `start_execution` and `retry_node` of `Engine.lean`, committed.
Publishing and its second commit set `redis_message_id`, which no DTO has.

A servicer method turns whatever is raised inside it into INTERNAL, and the
client sees an `AioRpcError` with that code; only `get_execution` looks at the
code. Ids of executions and nodes are given to `start_execution`, as `uuid4`
gives them.
-/
import EventFlow.Contracts
import EventFlow.Engine
import Mathlib.Data.List.Sort

set_option autoImplicit false

namespace EventFlow

/-! ## The database -/

/-- The rows of one execution, with the columns that only the DTOs read. -/
structure StoredExecution where
  rows : ExecutionRows
  error_message : Option String := none
  /-- `node_executions.id` of a node. -/
  node_pk : String → ℕ
  /-- `node_executions.input_payload` of a node. -/
  node_input : String → Option JsonObject := fun _ => none

/-- The executions under their ids, in the order the database finds them. The
driver binds `LIMIT` and `OFFSET` up to `int_max`. -/
structure Database where
  executions : Table ℕ StoredExecution
  int_max : ℕ

/-- `INSERT` of an execution. -/
def Database.insert (db : Database) (e : ℕ) (x : StoredExecution) : Database :=
  { db with executions :=
    { keys := db.executions.keys ++ [e], row := Function.update db.executions.row e x } }

/-- `DELETE` of an execution. -/
def Database.delete (db : Database) (e : ℕ) : Database :=
  { db with executions := { db.executions with keys := db.executions.keys.filter (· ≠ e) } }

/-- `ExecutionStatus[name]`. -/
def ExecutionStatus.of_name : String → Option ExecutionStatus
  | "CREATED" => some .CREATED
  | "RUNNING" => some .RUNNING
  | "SUCCEEDED" => some .SUCCEEDED
  | "FAILED" => some .FAILED
  | "PARTIAL_FAILED" => some .PARTIAL_FAILED
  | "CANCELLED" => some .CANCELLED
  | _ => none

/-! ## The engine -/

/-- A dict as Python code holds it. -/
abbrev PyDict := List (String × PyValue)

/-- The value, if it is a JSON value. -/
def PyValue.json? : PyValue → Option Json
  | .plain v => some v
  | .message => none

/-- The object, if all values in the dict are JSON values. -/
def PyDict.json? (d : PyDict) : Option JsonObject :=
  if d.all fun p => p.2.json?.isSome then some (d.filterMap fun p => p.2.json?.map (p.1, ·))
  else none

/-- A `float` in a JSONB column. The statement carries the text of `json.dumps`, so what
the column keeps is the decimal that `repr` prints, and not the double. Below `10 ^ 16`
there is a point in it and it is read back as the `float` it was. From there on `repr`
writes an exponent, the column spells the digits out, and an `int` is read back. -/
def Json.jsonb_float (q : ℚ) : Json :=
  if |q| < 10 ^ 16 then .float q
  else .int (q.num.sign * (BinaryFloat.binary64.shortest (q.num.natAbs / q.den) : ℕ))

mutual

/-- What is read back from a JSONB column. -/
def Json.jsonb : Json → Json
  | .float q => .jsonb_float q
  | .arr items => .arr (Json.jsonb_items items)
  | .obj members => .obj (Json.jsonb_members members)
  | v => v

def Json.jsonb_items : List Json → List Json
  | [] => []
  | v :: vs => v.jsonb :: Json.jsonb_items vs

def Json.jsonb_members : List (String × Json) → List (String × Json)
  | [] => []
  | (k, v) :: vs => (k, v.jsonb) :: Json.jsonb_members vs

end

@[simp] theorem Json.jsonb_int (n : ℤ) : (Json.int n).jsonb = .int n := by simp [Json.jsonb]

@[simp] theorem Json.jsonb_bool (b : Bool) : (Json.bool b).jsonb = .bool b := by
  simp [Json.jsonb]

@[simp] theorem Json.jsonb_str (t : String) : (Json.str t).jsonb = .str t := by
  simp [Json.jsonb]

/-- What a JSONB column stores of a dict: nothing if there is a value in it that
is not JSON. -/
def PyDict.jsonb (d : PyDict) : Option JsonObject := d.json?.map Json.jsonb_members

/-- `StartExecutionCommand`. -/
structure StartExecutionCommand where
  workflow_version_id : ℕ
  input_payload : PyDict

namespace ExecutionEngine

variable (env : Env) (db : Database)

/-- The execution, if its workflow is of `owner_api_key_id`. -/
def find (e owner_api_key_id : ℕ) : Option StoredExecution :=
  (db.executions.get? e).filter fun x =>
    decide (env.owner x.rows.execution = some owner_api_key_id)

/-- The DTO of a node row. -/
def node_dto (e : ℕ) (x : StoredExecution) (n : String) : NodeExecutionDTO where
  id := x.node_pk n
  execution_id := e
  node_id := n
  node_type := (x.rows.nodes.row n).node_type
  status := (x.rows.nodes.row n).status.name
  attempt := (x.rows.nodes.row n).attempt
  max_attempts := (x.rows.nodes.row n).max_attempts
  input_payload := x.node_input n
  output_payload := (x.rows.nodes.row n).output_payload
  error_message := (x.rows.nodes.row n).error_message

/-- The DTO of an execution row. -/
def execution_dto (e : ℕ) (x : StoredExecution) (node_executions : List NodeExecutionDTO) :
    ExecutionDTO where
  id := e
  workflow_id := x.rows.execution.workflow_id
  workflow_version_id := x.rows.execution.workflow_version_id
  status := x.rows.execution.status.name
  input_payload := x.rows.execution.input_payload
  error_message := x.error_message
  node_executions := node_executions

def get_node_executions (e owner_api_key_id : ℕ) : List NodeExecutionDTO :=
  match find env db e owner_api_key_id with
  | none => []
  | some x => x.rows.nodes.keys.map (node_dto e x)

def get_execution (e owner_api_key_id : ℕ) : Option ExecutionDTO :=
  match find env db e owner_api_key_id with
  | none => none
  | some x => some (execution_dto e x (get_node_executions env db e owner_api_key_id))

/-- `started_at DESC NULLS LAST`. -/
def before (x y : StoredExecution) : Bool :=
  match x.rows.execution.started_at, y.rows.execution.started_at with
  | _, none => true
  | none, some _ => false
  | some a, some b => decide (b ≤ a)

/-- The executions of an owner, with a status if one is given, in order. -/
def select (owner_api_key_id : ℕ) (status : Option ExecutionStatus) :
    List (ℕ × StoredExecution) :=
  let all := db.executions.keys.map fun e => (e, db.executions.row e)
  let found := all.filter fun p =>
    decide (env.owner p.2.rows.execution = some owner_api_key_id) &&
      (status.all fun st => decide (p.2.rows.execution.status = st))
  found.insertionSort fun p q => before p.2 q.2 = true

/-- The statement of `list_executions`. -/
def page (owner_api_key_id : ℕ) (status : Option ExecutionStatus) (limit offset : ℕ) :
    List ExecutionDTO :=
  (((select env db owner_api_key_id status).drop offset).take limit).map fun p =>
    execution_dto p.1 p.2 []

/-- The status argument of `list_executions`. -/
def status_enum : Option String → Except TransportError (Option ExecutionStatus)
  | none => .ok none
  | some name =>
    match ExecutionStatus.of_name name with
    | some st => .ok (some st)
    | none => .error (.engine (.app
        { message := s!"Invalid status: {name}", code := "invalid_status",
          status_code := 400 }))

def list_executions (owner_api_key_id : ℕ) (status : Option String) (limit offset : ℕ) :
    Except TransportError (List ExecutionDTO) := do
  let st ← status_enum status
  if db.int_max < limit ∨ db.int_max < offset then .error .data_error
  else return page env db owner_api_key_id st limit offset

/-- `start_execution`; `e` and `node_pk` are the ids of the new rows. The DTO is made of
the instance in the session, whose `input_payload` is the dict that was handed over and
not what the column gives back of it. -/
def start_execution (command : StartExecutionCommand) (owner_api_key_id e now : ℕ)
    (node_pk : String → ℕ) : Except TransportError (Database × Option ExecutionDTO) :=
  match EventFlow.start_execution env command.workflow_version_id command.input_payload.jsonb
    owner_api_key_id e now with
  | .error err => .error (.engine err)
  | .ok (session, _) =>
    match command.input_payload.json? with
    -- the flush of the execution row
    | none => .error (.engine (.type_error "Object of type Struct is not JSON serializable"))
    | some o =>
      let db' := db.insert e { rows := session.inserted, node_pk }
      .ok (db', (get_execution env db' e owner_api_key_id).map fun dto =>
        { dto with input_payload := some o })

def retry_node (e : ℕ) (n : String) (owner_api_key_id now : ℕ) :
    Except TransportError (Database × NodeExecutionDTO) :=
  match db.executions.get? e with
  | none => .error (.engine (.app
      { message := "NodeExecution not found", code := "not_found", status_code := 404 }))
  | some x =>
    let loaded := x.rows.load e now
    match EventFlow.retry_node env loaded x.rows.dead_letter_jobs n owner_api_key_id with
    | .error err => .error (.engine err)
    | .ok (session, jobs) =>
      -- `attempt` is an INTEGER column
      if 2 ^ 31 ≤ (session.nodes.row n).attempt then .error .data_error
      else
        let x' : StoredExecution :=
          { x with rows := { x.rows.commit loaded session with dead_letter_jobs := jobs } }
        .ok ({ db with executions := db.executions.set e x' }, node_dto e x' n)

def delete_execution (e owner_api_key_id : ℕ) : Except TransportError Database :=
  match find env db e owner_api_key_id with
  | none => .error (.engine (.app
      { message := "Execution not found", code := "not_found", status_code := 404 }))
  | some _ => .ok (db.delete e)

end ExecutionEngine

/-! ## The servicer -/

/-- `except Exception: context.set_code(INTERNAL); raise`. -/
def internal {α : Type} : Except TransportError α → Except StatusCode α
  | .ok a => .ok a
  | .error _ => .error .INTERNAL

/-- `pb.StartExecutionRequest`. -/
structure Pb.StartExecutionRequest (P : Protobuf) where
  workflow_version_id : ℕ
  input_payload : Option P.Struct
  owner_api_key_id : ℕ

/-- `pb.ListExecutionsRequest`. -/
structure Pb.ListExecutionsRequest where
  owner_api_key_id : ℕ
  status : Option String
  limit : ℕ
  offset : ℕ

namespace ExecutionEngineServiceServicer

variable (P : Protobuf) (env : Env) (db : Database)

/-- The command that `StartExecution` hands to the engine. An unset field is an
empty `Struct`, and that is falsy. -/
def command (request : Pb.StartExecutionRequest P) : StartExecutionCommand where
  workflow_version_id := request.workflow_version_id
  input_payload :=
    match request.input_payload with
    | none => []
    | some s => P.items s

/-- The response of `StartExecution`; there is no `_map` of `None`. -/
def start_response : Option ExecutionDTO → Except TransportError (Pb.ExecutionDTO P)
  | none => .error (.engine (.attribute_error "'NoneType' object has no attribute 'id'"))
  | some dto => map_execution_dto_to_pb P dto

def StartExecution (request : Pb.StartExecutionRequest P) (e now : ℕ) (node_pk : String → ℕ) :
    Except StatusCode (Pb.ExecutionDTO P) :=
  internal do
    let (_, dto) ← ExecutionEngine.start_execution env db (command P request)
      request.owner_api_key_id e now node_pk
    start_response P dto

def GetExecution (e owner_api_key_id : ℕ) : Except StatusCode (Pb.ExecutionDTO P) :=
  match ExecutionEngine.get_execution env db e owner_api_key_id with
  | none => .error .NOT_FOUND
  | some dto => internal (map_execution_dto_to_pb P dto)

/-- The arguments of the engine: an absent number is 0. -/
def ListExecutions (request : Pb.ListExecutionsRequest) :
    Except StatusCode (List (Pb.ExecutionDTO P)) :=
  internal do
    let limit := if request.limit = 0 then 50 else request.limit
    let dtos ← ExecutionEngine.list_executions env db request.owner_api_key_id request.status
      limit request.offset
    dtos.mapM (map_execution_dto_to_pb P)

def GetNodeExecutions (e owner_api_key_id : ℕ) :
    Except StatusCode (List (Pb.NodeExecutionDTO P)) :=
  internal ((ExecutionEngine.get_node_executions env db e owner_api_key_id).mapM
    (map_node_execution_dto_to_pb P))

def RetryNode (e : ℕ) (n : String) (owner_api_key_id now : ℕ) :
    Except StatusCode (Pb.NodeExecutionDTO P) :=
  internal do
    let (_, dto) ← ExecutionEngine.retry_node env db e n owner_api_key_id now
    map_node_execution_dto_to_pb P dto

def DeleteExecution (e owner_api_key_id : ℕ) : Except StatusCode Unit :=
  internal do
    let _ ← ExecutionEngine.delete_execution env db e owner_api_key_id
    return ()

end ExecutionEngineServiceServicer

/-! ## The clients -/

/-- `await stub.Method(request)`. -/
def stub {α : Type} : Except StatusCode α → Except TransportError α
  | .ok a => .ok a
  | .error code => .error (.rpc code)

namespace LocalExecutionEngineClient

variable (env : Env) (db : Database)

/-- The command of the API, handed over as it is. -/
def command (workflow_version_id : ℕ) (input_payload : JsonObject) : StartExecutionCommand where
  workflow_version_id := workflow_version_id
  input_payload := input_payload.map fun p => (p.1, .plain p.2)

def start_execution (workflow_version_id : ℕ) (input_payload : JsonObject)
    (owner_api_key_id e now : ℕ) (node_pk : String → ℕ) :
    Except TransportError (Option ExecutionDTO) :=
  (ExecutionEngine.start_execution env db (command workflow_version_id input_payload)
    owner_api_key_id e now node_pk).map Prod.snd

def get_execution (e owner_api_key_id : ℕ) : Except TransportError (Option ExecutionDTO) :=
  .ok (ExecutionEngine.get_execution env db e owner_api_key_id)

def list_executions (owner_api_key_id : ℕ) (status : Option String) (limit offset : ℕ) :
    Except TransportError (List ExecutionDTO) :=
  ExecutionEngine.list_executions env db owner_api_key_id status limit offset

def get_node_executions (e owner_api_key_id : ℕ) :
    Except TransportError (List NodeExecutionDTO) :=
  .ok (ExecutionEngine.get_node_executions env db e owner_api_key_id)

def retry_node (e : ℕ) (n : String) (owner_api_key_id now : ℕ) :
    Except TransportError NodeExecutionDTO :=
  (ExecutionEngine.retry_node env db e n owner_api_key_id now).map Prod.snd

def delete_execution (e owner_api_key_id : ℕ) : Except TransportError Unit :=
  (ExecutionEngine.delete_execution env db e owner_api_key_id).map fun _ => ()

end LocalExecutionEngineClient

namespace GrpcExecutionEngineClient

variable (P : Protobuf) (env : Env) (db : Database)

/-- The request of `start_execution`. -/
def start_request (workflow_version_id : ℕ) (input_payload : JsonObject)
    (owner_api_key_id : ℕ) : Except TransportError (Pb.StartExecutionRequest P) := do
  let input_payload ← struct_field P (some input_payload)
  return { workflow_version_id, input_payload, owner_api_key_id }

def start_execution (workflow_version_id : ℕ) (input_payload : JsonObject)
    (owner_api_key_id e now : ℕ) (node_pk : String → ℕ) :
    Except TransportError ExecutionDTO := do
  let request ← start_request P workflow_version_id input_payload owner_api_key_id
  let resp ← stub (ExecutionEngineServiceServicer.StartExecution P env db request e now node_pk)
  return map_execution P resp

def get_execution (e owner_api_key_id : ℕ) : Except TransportError (Option ExecutionDTO) :=
  match ExecutionEngineServiceServicer.GetExecution P env db e owner_api_key_id with
  | .ok resp => .ok (some (map_execution P resp))
  | .error .NOT_FOUND => .ok none
  | .error code => .error (.rpc code)

/-- The request of `list_executions`; an empty status is left out. -/
def list_request (owner_api_key_id : ℕ) (status : Option String) (limit offset : ℕ) :
    Except TransportError Pb.ListExecutionsRequest := do
  let limit ← int32 limit
  let offset ← int32 offset
  return { owner_api_key_id, status := string_field status, limit, offset }

def list_executions (owner_api_key_id : ℕ) (status : Option String) (limit offset : ℕ) :
    Except TransportError (List ExecutionDTO) := do
  let request ← list_request owner_api_key_id status limit offset
  let resp ← stub (ExecutionEngineServiceServicer.ListExecutions P env db request)
  return resp.map (map_execution P)

def get_node_executions (e owner_api_key_id : ℕ) :
    Except TransportError (List NodeExecutionDTO) := do
  let resp ← stub (ExecutionEngineServiceServicer.GetNodeExecutions P env db e owner_api_key_id)
  return resp.map (map_node_execution P)

def retry_node (e : ℕ) (n : String) (owner_api_key_id now : ℕ) :
    Except TransportError NodeExecutionDTO := do
  let resp ← stub (ExecutionEngineServiceServicer.RetryNode P env db e n owner_api_key_id now)
  return map_node_execution P resp

def delete_execution (e owner_api_key_id : ℕ) : Except TransportError Unit :=
  stub (ExecutionEngineServiceServicer.DeleteExecution env db e owner_api_key_id)

end GrpcExecutionEngineClient

end EventFlow
