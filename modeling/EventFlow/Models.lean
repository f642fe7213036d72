/-
The rows of `backend/app/models` that the engine and the workers read and
write, and the unit of work over them.

A `NodeExecution` row is found by its primary key. The unique constraint on
`(execution_id, node_id)` makes that pair a key as well, and the model uses it
for both: the rows of one execution are a `Table` under `node_id`, and a job
names its row by execution and node id. Columns that no modelled function reads
or writes (`input_payload`, `idempotency_key`, `worker_id` of a node,
`error_message` and `triggered_by` of an execution) are left out. Times are
readings of a clock that counts steps.

A `Session` is an `AsyncSession` in use: the instances it has loaded, the rows
it has added, and the events staged on `session.info`. Writing is two-phase, as
in the ORM. Code assigns to instances; `commit` then updates, by primary key,
only those columns whose value differs from the one that was loaded. A session
whose instances are current writes exactly what it sees
(`commit_nodes_of_loaded` in `StateTransition.lean`), a stale one need not.
-/
import EventFlow.Schema
import EventFlow.Library.Table

set_option autoImplicit false

namespace EventFlow

/-! ## Statuses -/

inductive ExecutionStatus where
  | CREATED | RUNNING | SUCCEEDED | FAILED | PARTIAL_FAILED | CANCELLED
deriving DecidableEq, Repr

inductive NodeExecutionStatus where
  | PENDING | QUEUED | RUNNING | SUCCEEDED | FAILED | RETRYING | SKIPPED | DEAD_LETTERED
deriving DecidableEq, Repr

inductive LogLevel where
  | DEBUG | INFO | WARNING | ERROR
deriving DecidableEq, Repr

/-- `status.name` of an execution. -/
def ExecutionStatus.name : ExecutionStatus → String
  | .CREATED => "CREATED"
  | .RUNNING => "RUNNING"
  | .SUCCEEDED => "SUCCEEDED"
  | .FAILED => "FAILED"
  | .PARTIAL_FAILED => "PARTIAL_FAILED"
  | .CANCELLED => "CANCELLED"

/-- `status.name` of a node. -/
def NodeExecutionStatus.name : NodeExecutionStatus → String
  | .PENDING => "PENDING"
  | .QUEUED => "QUEUED"
  | .RUNNING => "RUNNING"
  | .SUCCEEDED => "SUCCEEDED"
  | .FAILED => "FAILED"
  | .RETRYING => "RETRYING"
  | .SKIPPED => "SKIPPED"
  | .DEAD_LETTERED => "DEAD_LETTERED"

/-- `TERMINAL_NODE_STATUSES` of `worker/runtime.py`. -/
def TERMINAL_NODE_STATUSES : List NodeExecutionStatus :=
  [.SUCCEEDED, .FAILED, .SKIPPED, .DEAD_LETTERED]

/-- The statuses that set `finished_at` of an execution. -/
def TERMINAL_EXECUTION_STATUSES : List ExecutionStatus :=
  [.SUCCEEDED, .FAILED, .PARTIAL_FAILED, .CANCELLED]

/-! ## Rows -/

/-- A row of `executions`. -/
structure Execution where
  workflow_id : ℕ
  workflow_version_id : ℕ
  status : ExecutionStatus
  started_at : Option ℕ := none
  finished_at : Option ℕ := none
  input_payload : Option JsonObject

/-- A row of `node_executions`; its `node_id` is the key of the table. -/
structure NodeExecution where
  node_type : String
  status : NodeExecutionStatus
  attempt : ℕ
  max_attempts : ℕ
  output_payload : Option JsonObject := none
  error_message : Option String := none
  redis_message_id : Option ℕ := none
  queued_at : Option ℕ := none
  started_at : Option ℕ := none
  finished_at : Option ℕ := none

/-- The fields of a stream entry, see `queue/publisher.py`. The row is named by
`execution_id` and `node_id` together. -/
structure Job where
  execution_id : ℕ
  workflow_version_id : ℕ
  node_id : String
  attempt : ℕ
deriving DecidableEq, Repr

/-- A row of `dead_letter_jobs`. -/
structure DeadLetterJob where
  node_id : String
  redis_message_id : Option ℕ
  reason : String
  attempts : ℕ
  payload : Job
  resolved_at : Option ℕ := none
  resolution_note : Option String := none

/-- A row of `execution_logs`. -/
structure ExecutionLog where
  node_id : Option String
  level : LogLevel
  event_type : String
  message : String
  metadata : Option JsonObject

/-! ## Events -/

/-- The `type` and `data` of a websocket envelope (`websocket/events.py`). -/
inductive EventData where
  | execution_updated (status : ExecutionStatus)
  | node_updated (node_id : String) (status : NodeExecutionStatus) (attempt : ℕ)
  | execution_log (log : ExecutionLog)

/-- A websocket envelope. -/
structure Envelope where
  execution_id : ℕ
  timestamp : ℕ
  data : EventData

/-! ## Sessions -/

/-- All rows that belong to one execution. What a session of a worker loads, plus the two
tables that it only appends to. -/
structure ExecutionRows where
  execution : Execution
  nodes : Table String NodeExecution
  dead_letter_jobs : List DeadLetterJob := []
  logs : List ExecutionLog := []

/-- A session at work on one execution. `now` is the clock at its beginning; the lists are
what it will insert. -/
structure Session where
  execution_id : ℕ
  execution : Execution
  nodes : Table String NodeExecution
  new_dead_letter_jobs : List DeadLetterJob := []
  new_logs : List ExecutionLog := []
  ws_events : List Envelope := []
  now : ℕ

/-- A session that has just loaded `rows`. Everything it sees is current then, and it has
nothing to insert. -/
def ExecutionRows.load (rows : ExecutionRows) (execution_id now : ℕ) : Session where
  execution_id := execution_id
  execution := rows.execution
  nodes := rows.nodes
  now := now

/-- A session that has re-read the node rows with `populate_existing`. Its
execution instance is the one it loaded earlier. -/
def ExecutionRows.refresh (rows : ExecutionRows) (execution : Execution)
    (execution_id now : ℕ) : Session where
  execution_id := execution_id
  execution := execution
  nodes := rows.nodes
  now := now

/-- `node.<columns> = ...` on the instance. -/
def Session.set_node (s : Session) (node_id : String) (node : NodeExecution) : Session :=
  { s with nodes := s.nodes.set node_id node }

/-- `stage_event` of `websocket/broadcaster.py`: buffer an envelope on the
session. -/
def Session.stage_event (s : Session) (data : EventData) : Session :=
  { s with ws_events := s.ws_events ++ [⟨s.execution_id, s.now, data⟩] }

/-! ## Commit -/

section Flush

variable {β : Type*} [DecidableEq β]

/-- One column of an `UPDATE`: written only if the instance differs from what
was loaded. -/
def written (loaded current stored : β) : β := if current = loaded then stored else current

theorem written_same (loaded stored : β) : written loaded loaded stored = stored := if_pos rfl

theorem written_loaded (loaded current : β) : written loaded current loaded = current := by
  unfold written
  split
  · rename_i h
    exact h.symm
  · rfl

end Flush

/-- The `UPDATE executions` of a flush. Column by column, since two sessions that have
changed different columns do not write over each other. -/
def Execution.flush (loaded current stored : Execution) : Execution :=
  -- the columns that no method assigns are never in the `SET`
  { stored with
    status := written loaded.status current.status stored.status
    started_at := written loaded.started_at current.started_at stored.started_at
    finished_at := written loaded.finished_at current.finished_at stored.finished_at }

/-- The `UPDATE node_executions` of a flush. An instance that is outdated writes the
columns it has changed over whatever the row has become. -/
def NodeExecution.flush (loaded current stored : NodeExecution) : NodeExecution where
  node_type := stored.node_type
  max_attempts := stored.max_attempts
  status := written loaded.status current.status stored.status
  attempt := written loaded.attempt current.attempt stored.attempt
  output_payload := written loaded.output_payload current.output_payload stored.output_payload
  error_message := written loaded.error_message current.error_message stored.error_message
  redis_message_id :=
    written loaded.redis_message_id current.redis_message_id stored.redis_message_id
  queued_at := written loaded.queued_at current.queued_at stored.queued_at
  started_at := written loaded.started_at current.started_at stored.started_at
  finished_at := written loaded.finished_at current.finished_at stored.finished_at

/-- `session.commit()`: `loaded` is the session as it was when its instances
were last loaded, `s` what it is now. -/
def ExecutionRows.commit (rows : ExecutionRows) (loaded s : Session) : ExecutionRows where
  execution := loaded.execution.flush s.execution rows.execution
  nodes := { rows.nodes with
    row := fun n => (loaded.nodes.row n).flush (s.nodes.row n) (rows.nodes.row n) }
  -- inserts add rows whatever others have committed
  dead_letter_jobs := rows.dead_letter_jobs ++ s.new_dead_letter_jobs
  logs := rows.logs ++ s.new_logs

/-- A current instance is written as it is, in the columns a session changes. -/
theorem NodeExecution.flush_loaded {loaded current : NodeExecution}
    (htype : current.node_type = loaded.node_type)
    (hmax : current.max_attempts = loaded.max_attempts) :
    loaded.flush current loaded = current := by
  unfold NodeExecution.flush
  cases current
  simp only [written_loaded] at *
  subst htype
  subst hmax
  rfl

/-- The instance a session did not touch leaves its row alone. -/
theorem NodeExecution.flush_untouched (loaded stored : NodeExecution) :
    loaded.flush loaded stored = stored := by
  unfold NodeExecution.flush
  simp only [written_same]

/-- An instance that was not touched leaves the execution alone. -/
theorem Execution.flush_untouched (loaded stored : Execution) :
    loaded.flush loaded stored = stored := by
  unfold Execution.flush
  simp only [written_same]

end EventFlow
