/-
The tables of `backend/app/models` as one database for all API keys, and the
services that the API calls on it: `services/workflow_service.py`,
`services/execution_engine.py`, `services/dlq_service.py` and
`services/execution_log_service.py`.

Rows name each other by id, and only a workflow names its owner. Whether an
execution, a node, a log or a dead letter is a caller's is asked again in each
statement, by a join up to `workflows`; ids are primary keys, so a join adds no
rows and is written as a filter. Rows are listed in the order in which the
database finds them, and `ORDER BY` keeps that order among equals.

Every method is one step and returns its result together with the tables it
leaves behind: an exception before the first commit leaves them as they were.
What a method draws from outside is passed in: the ids of the rows it inserts,
the clock, and what publishing to the queue returns for each node, `none` if it
raises. The writes of the workers are one step as well (`worker_write`): a
worker works on one execution at a time, and the logs and dead letters it adds
name that execution and nodes of it.
-/
import EventFlow.Clients
import EventFlow.Definitions
import EventFlow.Library.Transition

set_option autoImplicit false

namespace EventFlow

/-! ## Tables -/

/-- A row of `workflows`. The only table that names an owner. -/
structure WorkflowRow where
  id : ℕ
  owner_api_key_id : ℕ
  name : String
  description : Option String
  created_at : ℕ
  updated_at : ℕ

/-- A row of `workflow_versions`. `definition` is the JSON that was dumped, and nothing
writes it again. -/
structure WorkflowVersionRow where
  id : ℕ
  workflow_id : ℕ
  version_number : ℕ
  definition : Json
  checksum : String
  created_at : ℕ

/-- A row of `executions`. It names its version and, beside it, its workflow, which is
where the owner is looked up. -/
structure ExecutionRow extends Execution where
  id : ℕ
  error_message : Option String := none

/-- A row of `node_executions`. `id` is the primary key, `node_id` the id of the node in
the definition. -/
structure NodeExecutionRow extends NodeExecution where
  id : ℕ
  execution_id : ℕ
  node_id : String
  input_payload : Option JsonObject := none

/-- A row of `execution_logs`. A log names an execution, and a node only if it is about
one. -/
structure ExecutionLogRow where
  id : ℕ
  execution_id : ℕ
  node_execution_id : Option ℕ
  level : LogLevel
  event_type : String
  message : String
  log_metadata : Option JsonObject
  created_at : ℕ

/-- A row of `dead_letter_jobs`. It names an execution and a node, and nothing in the
schema says that the node is of that execution. -/
structure DeadLetterJobRow where
  id : ℕ
  execution_id : ℕ
  node_execution_id : ℕ
  redis_message_id : Option ℕ
  reason : String
  attempts : ℕ
  payload : Option JsonObject
  resolved_at : Option ℕ := none
  resolution_note : Option String := none
  created_at : ℕ

/-- All tables. The unit of work is not modelled here: a method reads all tables and
returns all tables. -/
structure Tables where
  workflows : List WorkflowRow := []
  workflow_versions : List WorkflowVersionRow := []
  executions : List ExecutionRow := []
  node_executions : List NodeExecutionRow := []
  execution_logs : List ExecutionLogRow := []
  dead_letter_jobs : List DeadLetterJobRow := []

/-- How a method of a service fails. -/
inductive ServiceError where
  | py (error : PyError)
  /-- A stored definition does not validate. -/
  | validation (errors : List ErrorDetails)
  /-- A constraint of the database. -/
  | integrity_error
  /-- The driver refuses a value. -/
  | data_error
  /-- The queue is not reachable. -/
  | publish_error

def ServiceError.app (message code : String) (status_code : ℕ) : ServiceError :=
  .py (.app { message, code, status_code })

/-- What the services are configured with: the executors, the conversions of
pydantic, the checksum of a definition, and the largest `LIMIT` and `OFFSET`
that the driver binds. -/
structure ServiceEnv where
  registry : ExecutorRegistry
  pydantic : Pydantic
  checksum : WorkflowDefinition → String
  int_max : ℕ

/-- Services that know every executor type. -/
def any_services : ServiceEnv where
  registry := fun _ => some ⟨fun _ => .ok ()⟩
  pydantic := { int_of_str := fun _ => none, float_of_str := fun _ => none }
  checksum := fun _ => ""
  int_max := 2 ^ 63 - 1

/-- Ids that can be inserted next to those that are stored. An insert of several rows
fails as a whole if one of the ids is in use, or two are the same. -/
def insertable (stored new : List ℕ) : Bool :=
  decide (new.Nodup ∧ ∀ id ∈ new, id ∉ stored)

/-- `LIMIT` and `OFFSET`. -/
def paged {α : Type} (env : ServiceEnv) (limit offset : ℕ) (rows : List α) :
    Except ServiceError (List α) :=
  if env.int_max < limit ∨ env.int_max < offset then .error .data_error
  else .ok ((rows.drop offset).take limit)

/-- `started_at DESC NULLS LAST`. -/
def desc_nulls_last : Option ℕ → Option ℕ → Bool
  | _, none => true
  | none, some _ => false
  | some a, some b => decide (b ≤ a)

/-- What a `start_execution` draws. -/
structure NewExecution where
  execution_id : ℕ
  node_pk : String → ℕ
  log_pk : ℕ → ℕ
  now : ℕ
  publish : String → Option (Option ℕ)

namespace Tables

/-! ## Owners -/

variable (s : Tables)

/-- The workflow is of this key. -/
def owns_workflow (key w : ℕ) : Bool :=
  s.workflows.any fun row => decide (row.id = w ∧ row.owner_api_key_id = key)

/-- `JOIN workflows ON workflows.id = executions.workflow_id` finds the execution for this
key. As ids are keys there is at most one row to join with. -/
def owns_execution (key e : ℕ) : Bool :=
  s.executions.any fun row => decide (row.id = e) && s.owns_workflow key row.workflow_id

/-- The execution, if its workflow is of this key. An execution of somebody else and one
that is not there look the same to the caller. -/
def find_execution (key e : ℕ) : Option ExecutionRow :=
  s.executions.find? fun row => decide (row.id = e) && s.owns_workflow key row.workflow_id

/-! ## Reads -/

/-- `WorkflowService.list_workflows`: the workflows of an owner with their
latest version numbers. -/
def list_workflows (env : ServiceEnv) (owner_api_key_id limit offset : ℕ) :
    Except ServiceError (List (WorkflowRow × Option ℕ)) :=
  let rows := s.workflows.filter fun w => decide (w.owner_api_key_id = owner_api_key_id)
  let found := rows.map fun w =>
    (w, ((s.workflow_versions.filter fun v => decide (v.workflow_id = w.id)).map
      WorkflowVersionRow.version_number).max?)
  paged env limit offset (found.insertionSort fun p q => q.1.created_at ≤ p.1.created_at)

/-- `WorkflowService.get_workflow`: the workflow with its versions. -/
def get_workflow (workflow_id owner_api_key_id : ℕ) :
    Option (WorkflowRow × List WorkflowVersionRow) :=
  (s.workflows.find? fun w =>
      decide (w.id = workflow_id ∧ w.owner_api_key_id = owner_api_key_id)).map fun w =>
    (w, s.workflow_versions.filter fun v => decide (v.workflow_id = w.id))

/-- The DTO of a node row. -/
def node_dto (row : NodeExecutionRow) : NodeExecutionDTO where
  id := row.id
  execution_id := row.execution_id
  node_id := row.node_id
  node_type := row.node_type
  status := row.status.name
  attempt := row.attempt
  max_attempts := row.max_attempts
  input_payload := row.input_payload
  output_payload := row.output_payload
  error_message := row.error_message

/-- The DTO of an execution row. -/
def execution_dto (row : ExecutionRow) (node_executions : List NodeExecutionDTO) :
    ExecutionDTO where
  id := row.id
  workflow_id := row.workflow_id
  workflow_version_id := row.workflow_version_id
  status := row.status.name
  input_payload := row.input_payload
  error_message := row.error_message
  node_executions := node_executions

/-- `ExecutionEngine.get_node_executions`. -/
def get_node_executions (execution_id owner_api_key_id : ℕ) : List NodeExecutionDTO :=
  match s.find_execution owner_api_key_id execution_id with
  | none => []
  | some _ =>
    (s.node_executions.filter fun row => decide (row.execution_id = execution_id)).map node_dto

/-- `ExecutionEngine.get_execution`. -/
def get_execution (execution_id owner_api_key_id : ℕ) : Option ExecutionDTO :=
  match s.find_execution owner_api_key_id execution_id with
  | none => none
  | some row => some (execution_dto row (s.get_node_executions execution_id owner_api_key_id))

/-- The status argument of `list_executions`. An unknown one is the error of the caller.
-/
def status_enum : Option String → Except ServiceError (Option ExecutionStatus)
  | none => .ok none
  | some name =>
    match ExecutionStatus.of_name name with
    | some status => .ok (some status)
    | none => .error (.app s!"Invalid status: {name}" "invalid_status" 400)

/-- `ExecutionEngine.list_executions`. Filtered by owner and status, ordered by the start,
and cut to the page. -/
def list_executions (env : ServiceEnv) (owner_api_key_id : ℕ) (status : Option String)
    (limit offset : ℕ) : Except ServiceError (List ExecutionDTO) :=
  match status_enum status with
  | .error err => .error err
  | .ok status =>
    let rows := s.executions.filter fun row =>
      s.owns_workflow owner_api_key_id row.workflow_id &&
        status.all fun st => decide (row.status = st)
    let sorted := rows.insertionSort fun p q => desc_nulls_last p.started_at q.started_at = true
    (paged env limit offset sorted).map fun page => page.map fun row => execution_dto row []

/-- `ExecutionLogService._check_ownership`. -/
def check_ownership (execution_id owner_api_key_id : ℕ) : Except ServiceError Unit :=
  match s.find_execution owner_api_key_id execution_id with
  | none => .error (.app "Execution not found" "not_found" 404)
  | some _ => .ok ()

/-- The logs of an execution, in the order of their creation. -/
def logs_of (execution_id : ℕ) : List ExecutionLogRow :=
  (s.execution_logs.filter fun row => decide (row.execution_id = execution_id)).insertionSort
    fun p q => p.created_at ≤ q.created_at

/-- `ExecutionLogService.list_logs`. -/
def list_logs (env : ServiceEnv) (execution_id owner_api_key_id limit offset : ℕ) :
    Except ServiceError (List ExecutionLogRow) :=
  match s.check_ownership execution_id owner_api_key_id with
  | .error err => .error err
  | .ok _ => paged env limit offset (s.logs_of execution_id)

/-- `ExecutionLogService.get_timeline`. -/
def get_timeline (env : ServiceEnv) (execution_id owner_api_key_id limit : ℕ) :
    Except ServiceError (List ExecutionLogRow) :=
  match s.check_ownership execution_id owner_api_key_id with
  | .error err => .error err
  | .ok _ => paged env limit 0 (s.logs_of execution_id)

/-- `DlqService._owned_stmt`. -/
def owned_jobs (owner_api_key_id : ℕ) : List DeadLetterJobRow :=
  s.dead_letter_jobs.filter fun job => s.owns_execution owner_api_key_id job.execution_id

/-- `DlqService.list_dlq_jobs`. -/
def list_dlq_jobs (env : ServiceEnv) (owner_api_key_id limit offset : ℕ) :
    Except ServiceError (List DeadLetterJobRow) :=
  paged env limit offset
    ((s.owned_jobs owner_api_key_id).insertionSort fun p q => q.created_at ≤ p.created_at)

/-- `DlqService.get_dlq_job`. -/
def get_dlq_job (dlq_id owner_api_key_id : ℕ) : Option DeadLetterJobRow :=
  (s.owned_jobs owner_api_key_id).find? fun job => decide (job.id = dlq_id)

/-! ## Workflows -/

/-- `WorkflowService.create_workflow`; `workflow_id` and `version_id` are the
ids of the new rows. -/
def create_workflow (env : ServiceEnv) (name description : String)
    (definition : WorkflowDefinition) (owner_api_key_id workflow_id version_id now : ℕ) :
    Except ServiceError WorkflowVersionRow × Tables :=
  match validate_workflow definition env.registry with
  | .error e => (.error (.py (.app e)), s)
  | .ok _ =>
    if insertable (s.workflows.map WorkflowRow.id) [workflow_id] &&
        insertable (s.workflow_versions.map WorkflowVersionRow.id) [version_id] then
      let workflow : WorkflowRow :=
        { id := workflow_id, owner_api_key_id, name, description := some description
          created_at := now, updated_at := now }
      let version : WorkflowVersionRow :=
        { id := version_id, workflow_id, version_number := 1
          definition := definition.model_dump, checksum := env.checksum definition
          created_at := now }
      (.ok version,
        { s with workflows := s.workflows ++ [workflow]
                 workflow_versions := s.workflow_versions ++ [version] })
    else (.error .integrity_error, s)

/-- `WorkflowService.create_workflow_version`. The number is one more than the highest
there is; with two requests at a time the unique constraint decides
(`VersionNumbers.lean`). -/
def create_workflow_version (env : ServiceEnv) (workflow_id : ℕ)
    (definition : WorkflowDefinition) (owner_api_key_id version_id now : ℕ) :
    Except ServiceError WorkflowVersionRow × Tables :=
  match s.workflows.find? fun w =>
      decide (w.id = workflow_id ∧ w.owner_api_key_id = owner_api_key_id) with
  | none => (.error (.app "Workflow not found" "not_found" 404), s)
  | some _ =>
    match validate_workflow definition env.registry with
    | .error e => (.error (.py (.app e)), s)
    | .ok _ =>
      let max_v := ((s.workflow_versions.filter fun v => decide (v.workflow_id = workflow_id)).map
        WorkflowVersionRow.version_number).max?.getD 0
      let version : WorkflowVersionRow :=
        { id := version_id, workflow_id, version_number := max_v + 1
          definition := definition.model_dump, checksum := env.checksum definition
          created_at := now }
      if insertable (s.workflow_versions.map WorkflowVersionRow.id) [version_id] then
        (.ok version,
          { s with
            workflows := s.workflows.map fun w =>
              if w.id = workflow_id then { w with updated_at := now } else w
            workflow_versions := s.workflow_versions ++ [version] })
      else (.error .integrity_error, s)

/-- `WorkflowService.delete_workflow`. The versions go with the workflow; an
execution of the workflow, or of one of the versions, is in the way: its foreign
keys can be neither cleared nor left. -/
def delete_workflow (workflow_id owner_api_key_id : ℕ) : Except ServiceError Bool × Tables :=
  match s.workflows.find? fun w =>
      decide (w.id = workflow_id ∧ w.owner_api_key_id = owner_api_key_id) with
  | none => (.ok false, s)
  | some _ =>
    let versions := (s.workflow_versions.filter fun v =>
      decide (v.workflow_id = workflow_id)).map WorkflowVersionRow.id
    if s.executions.any fun row =>
        decide (row.workflow_id = workflow_id ∨ row.workflow_version_id ∈ versions) then
      (.error .integrity_error, s)
    else
      (.ok true,
        { s with
          workflows := s.workflows.filter fun w => decide (w.id ≠ workflow_id)
          workflow_versions := s.workflow_versions.filter fun v =>
            decide (v.workflow_id ≠ workflow_id) })

/-! ## Executions -/

/-- The first commit of `start_execution`: the rows that its session has added. -/
def insert_execution (new : NewExecution) (rows : ExecutionRows) : Option Tables :=
  let nodes : List NodeExecutionRow := rows.nodes.keys.map fun n =>
    { rows.nodes.row n with id := new.node_pk n, execution_id := new.execution_id, node_id := n }
  let logs : List ExecutionLogRow := rows.logs.zipIdx.map fun p =>
    { id := new.log_pk p.2, execution_id := new.execution_id
      node_execution_id := p.1.node_id.map new.node_pk, level := p.1.level
      event_type := p.1.event_type, message := p.1.message, log_metadata := p.1.metadata
      created_at := new.now }
  if insertable (s.executions.map ExecutionRow.id) [new.execution_id] &&
      insertable (s.node_executions.map NodeExecutionRow.id) (nodes.map NodeExecutionRow.id) &&
      insertable (s.execution_logs.map ExecutionLogRow.id) (logs.map ExecutionLogRow.id) then
    some { s with
      executions := s.executions ++ [{ rows.execution with id := new.execution_id }]
      node_executions := s.node_executions ++ nodes
      execution_logs := s.execution_logs ++ logs }
  else none

/-- The second commit of `start_execution`: the message ids of the nodes that
were published. -/
def set_message_ids (new : NewExecution) (published : List String) : Tables :=
  { s with node_executions := s.node_executions.map fun row =>
      if row.execution_id = new.execution_id ∧ row.node_id ∈ published then
        match new.publish row.node_id with
        | some (some message_id) => { row with redis_message_id := some message_id }
        | _ => row
      else row }

/-- `ExecutionEngine.start_execution`. The checks, the commit of the rows, the publishes
in the order of the definition, and the commit of their message ids. A publish that raises
ends it, and the rows of the first commit stay. -/
def start_execution (env : ServiceEnv) (workflow_version_id : ℕ) (input_payload : JsonObject)
    (owner_api_key_id : ℕ) (new : NewExecution) :
    Except ServiceError (Option ExecutionDTO) × Tables :=
  match s.workflow_versions.find? fun v => decide (v.id = workflow_version_id) with
  | none => (.error (.app "Workflow version not found" "not_found" 404), s)
  | some version =>
    match s.workflows.find? fun w => decide (w.id = version.workflow_id) with
    | none => (.error (.app "Workflow version not found" "not_found" 404), s)
    | some workflow =>
      if workflow.owner_api_key_id ≠ owner_api_key_id then
        (.error (.app "Unauthorized access to workflow" "unauthorized" 403), s)
      else
        match WorkflowDefinition.model_validate env.pydantic version.definition with
        | .error errors => (.error (.validation errors), s)
        | .ok definition =>
          -- what is looked up from here on is the version that was found
          let found : WorkflowVersion :=
            { workflow_id := workflow.id, owner_api_key_id := workflow.owner_api_key_id
              definition }
          match EventFlow.start_execution ⟨env.registry, fun _ => some found⟩
              workflow_version_id (some input_payload) owner_api_key_id new.execution_id
              new.now with
          | .error err => (.error (.py err), s)
          | .ok (session, published) =>
            match s.insert_execution new session.inserted with
            | none => (.error .integrity_error, s)
            | some s₁ =>
              if published.any fun n => (new.publish n).isNone then (.error .publish_error, s₁)
              else
                let s₂ := s₁.set_message_ids new published
                (.ok (s₂.get_execution new.execution_id owner_api_key_id), s₂)

/-- `ExecutionEngine.retry_node`; `publish` is what publishing returns. The node has to be
the caller's and DEAD_LETTERED. The unresolved dead letter is read with
`scalar_one_or_none`, which raises if there are two. -/
def retry_node (execution_id : ℕ) (node_id : String) (owner_api_key_id now : ℕ)
    (publish : Option (Option ℕ)) : Except ServiceError NodeExecutionDTO × Tables :=
  match s.node_executions.find? fun row =>
      decide (row.execution_id = execution_id ∧ row.node_id = node_id) &&
        s.owns_execution owner_api_key_id row.execution_id with
  | none => (.error (.app "NodeExecution not found" "not_found" 404), s)
  | some row =>
    if row.status ≠ .DEAD_LETTERED then
      (.error (.app ("Cannot retry node in " ++ row.status.name ++
        " state. Must be DEAD_LETTERED.") "invalid_state" 400), s)
    else
      let node : NodeExecutionRow := { row with toNodeExecution := row.enter .QUEUED now }
      let jobs := s.dead_letter_jobs.filter fun job =>
        decide (job.node_execution_id = row.id ∧ job.resolved_at = none)
      -- `attempt` is an INTEGER column
      if 2 ^ 31 ≤ node.attempt then (.error .data_error, s)
      -- `scalar_one_or_none` refuses a second unresolved row
      else if 2 ≤ jobs.length then (.error (.py .multiple_results_found), s)
      else
        let write (node : NodeExecutionRow) : List NodeExecutionRow :=
          s.node_executions.map fun other => if other.id = node.id then node else other
        let s₁ : Tables :=
          { s with
            node_executions := write node
            dead_letter_jobs := s.dead_letter_jobs.map fun job =>
              if job.id ∈ jobs.map DeadLetterJobRow.id then
                { job with resolved_at := some now
                           resolution_note := some "Manually retried via API" }
              else job }
        match publish with
        | none => (.error .publish_error, s₁)
        | some none => (.ok (node_dto node), s₁)
        | some (some message_id) =>
          (.ok (node_dto node),
            { s₁ with node_executions := write { node with redis_message_id := some message_id } })

/-- `ExecutionEngine.delete_execution`. The dead letters are deleted by
statement; nodes and logs go with the execution, and with a node the logs that
name it. A dead letter that names one of the nodes from elsewhere is in the
way. -/
def delete_execution (execution_id owner_api_key_id : ℕ) : Except ServiceError Unit × Tables :=
  match s.find_execution owner_api_key_id execution_id with
  | none => (.error (.app "Execution not found" "not_found" 404), s)
  | some _ =>
    let nodes := (s.node_executions.filter fun row =>
      decide (row.execution_id = execution_id)).map NodeExecutionRow.id
    if s.dead_letter_jobs.any fun job =>
        decide (job.execution_id ≠ execution_id ∧ job.node_execution_id ∈ nodes) then
      (.error .integrity_error, s)
    else
      (.ok (),
        { s with
          executions := s.executions.filter fun row => decide (row.id ≠ execution_id)
          node_executions := s.node_executions.filter fun row =>
            decide (row.execution_id ≠ execution_id)
          execution_logs := s.execution_logs.filter fun row =>
            decide (row.execution_id ≠ execution_id ∧ ∀ n ∈ row.node_execution_id, n ∉ nodes)
          dead_letter_jobs := s.dead_letter_jobs.filter fun job =>
            decide (job.execution_id ≠ execution_id) })

/-- `DlqService.resolve_dlq_job`. It writes the row of the job and leaves the node as it
is. -/
def resolve_dlq_job (dlq_id owner_api_key_id now : ℕ) (resolution_note : Option String) :
    Except ServiceError DeadLetterJobRow × Tables :=
  match s.get_dlq_job dlq_id owner_api_key_id with
  | none => (.error (.app "Dead letter job not found" "not_found" 404), s)
  | some job =>
    let job := { job with resolved_at := some now, resolution_note }
    (.ok job,
      { s with dead_letter_jobs := s.dead_letter_jobs.map fun other =>
          if other.id = job.id then job else other })

end Tables

/-! ## Runs -/

/-- A commit of a worker: the columns of an execution and of its nodes, and the logs and
dead letters it adds. What a worker writes is not restricted any further here, so a result
about these tables does not depend on what the workers do. -/
structure WorkerWrite where
  execution_id : ℕ
  execution : ExecutionRow → ExecutionStatus × Option ℕ × Option ℕ
  node : NodeExecutionRow → NodeExecution
  logs : List ExecutionLogRow
  jobs : List DeadLetterJobRow

/-- The methods that write, as a caller asks for them. -/
inductive TenantCall where
  | create_workflow (name description : String) (definition : WorkflowDefinition)
      (workflow_id version_id now : ℕ)
  | create_workflow_version (workflow_id : ℕ) (definition : WorkflowDefinition)
      (version_id now : ℕ)
  | delete_workflow (workflow_id : ℕ)
  | start_execution (workflow_version_id : ℕ) (input_payload : JsonObject) (new : NewExecution)
  | retry_node (execution_id : ℕ) (node_id : String) (now : ℕ) (publish : Option (Option ℕ))
  | delete_execution (execution_id : ℕ)
  | resolve_dlq_job (dlq_id now : ℕ) (resolution_note : Option String)

inductive TablesStep where
  | call (key : ℕ) (c : TenantCall)
  | worker (w : WorkerWrite)

namespace Tables

/-- A commit of a worker. It has loaded the execution and its nodes, and what it
adds names them. -/
def worker_write (s : Tables) (w : WorkerWrite) : Option Tables :=
  let nodes := (s.node_executions.filter fun row =>
    decide (row.execution_id = w.execution_id)).map NodeExecutionRow.id
  if (∀ log ∈ w.logs, log.execution_id = w.execution_id ∧
        ∀ n ∈ log.node_execution_id, n ∈ nodes) ∧
      (∀ job ∈ w.jobs, job.execution_id = w.execution_id ∧ job.node_execution_id ∈ nodes) ∧
      insertable (s.execution_logs.map ExecutionLogRow.id)
        (w.logs.map ExecutionLogRow.id) = true ∧
      insertable (s.dead_letter_jobs.map DeadLetterJobRow.id)
        (w.jobs.map DeadLetterJobRow.id) = true then
    some { s with
      executions := s.executions.map fun row =>
        if row.id = w.execution_id then
          { row with status := (w.execution row).1, started_at := (w.execution row).2.1
                     finished_at := (w.execution row).2.2 }
        else row
      node_executions := s.node_executions.map fun row =>
        if row.execution_id = w.execution_id then { row with toNodeExecution := w.node row }
        else row
      execution_logs := s.execution_logs ++ w.logs
      dead_letter_jobs := s.dead_letter_jobs ++ w.jobs }
  else none

/-- The tables after a call by `key`, whatever it returns. -/
def call (env : ServiceEnv) (s : Tables) (key : ℕ) : TenantCall → Tables
  | .create_workflow name description definition workflow_id version_id now =>
    (s.create_workflow env name description definition key workflow_id version_id now).2
  | .create_workflow_version workflow_id definition version_id now =>
    (s.create_workflow_version env workflow_id definition key version_id now).2
  | .delete_workflow workflow_id => (s.delete_workflow workflow_id key).2
  | .start_execution workflow_version_id input_payload new =>
    (s.start_execution env workflow_version_id input_payload key new).2
  | .retry_node execution_id node_id now publish =>
    (s.retry_node execution_id node_id key now publish).2
  | .delete_execution execution_id => (s.delete_execution execution_id key).2
  | .resolve_dlq_job dlq_id now resolution_note =>
    (s.resolve_dlq_job dlq_id key now resolution_note).2

def step (env : ServiceEnv) (s : Tables) : TablesStep → Option Tables
  | .call key c => some (s.call env key c)
  | .worker w => s.worker_write w

/-- A state that calls of any keys and the workers lead to, from empty tables. -/
abbrev Reachable (env : ServiceEnv) (s : Tables) : Prop :=
  Transition.Reaches (step env) (fun _ _ => True) {} s

end Tables

end EventFlow
