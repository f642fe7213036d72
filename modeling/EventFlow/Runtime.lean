/-
`worker/runtime.py` and the job half of `worker/recovery.py`: what a worker does
with one message.

`process_job` is cut where it commits. `process_job_claim` is everything up to
the first commit (lines 57-80), `build_context` the part between the claim and
the executor call (lines 83-110), `process_job_complete` the transaction under
the row lock (lines 118-186). Publishing and acknowledging are steps of the
system in `System.lean`. `process_recovered_job` is its own function up to the
commit that precedes its call of `process_job`.

Each function returns normally without a commit, raises, or hands back the
session to commit; `JobOutcome` keeps the three apart because only the first
and the last lead to an ack.

The two loops of `_queue_downstream_nodes` are `cascade_skip` and
`queue_children`. The first is a `while` loop over a queue that is filled as it
is emptied; its fuel is the length of the queue plus the number of edges, and
`cascade_skip_spec` in `RuntimeSpec.lean` shows that the queue is always empty
by then. `skip_ids` is a Python `set`, whose iteration order is unspecified;
the model iterates in insertion order, and which nodes end up SKIPPED does not
depend on it.
-/
import EventFlow.StateTransition
import EventFlow.DagValidator
import EventFlow.Uuid

set_option autoImplicit false

namespace EventFlow

/-! ## Data passed to and from an executor -/

/-- `ExecutionContext` of `services/executor_registry.py`. -/
structure ExecutionContext where
  execution_id : ℕ
  node_id : String
  config : JsonObject
  workflow_input : JsonObject
  upstream_outputs : JsonObject
  attempt : ℕ
  idempotency_key : String := ""

/-- `ExecutorResult`. An executor that raises is recorded as a failed result
with `str(exc)` as its error. -/
structure ExecutorResult where
  success : Bool
  output : JsonObject := []
  error : Option String := none
deriving DecidableEq

/-- How a part of `process_job` ends. -/
inductive JobOutcome (β : Type) where
  | returned
  | raised (error : PyError)
  | committed (value : β)

/-! ## The claim -/

/-- `process_job` up to its first commit. -/
def process_job_claim (s : Session) (node_id : String) : JobOutcome Session :=
  match s.nodes.get? node_id with
  -- the row is gone with its execution
  | none => .returned
  | some node =>
    -- a second delivery of a job that is done
    if node.status ∈ TERMINAL_NODE_STATUSES then .returned
    else
      match transition_node_status s node_id .QUEUED .RUNNING with
      | .error e => .raised e
      | .ok s => .committed (node_started s node_id)

/-- What `process_recovered_job` has done when it commits. -/
inductive RecoveredJob where
  /-- The row is gone: return without a commit. -/
  | missing
  /-- The node is terminal: commit the log row and return. -/
  | terminal (s : Session)
  /-- Commit, then call `process_job` on the same session. -/
  | proceed (s : Session)

/-- `process_recovered_job` up to its commit. The status of a RUNNING node is
overridden by assignment, outside the transition service. -/
def process_recovered_job (s : Session) (node_id : String) (redis_message_id : ℕ) :
    RecoveredJob :=
  match s.nodes.get? node_id with
  | none => .missing
  | some node =>
    let s := worker_recovered_job s node_id redis_message_id
    if node.status ∈ TERMINAL_NODE_STATUSES then .terminal s
    else if node.status = .RUNNING then
      -- no transition: the attempt stays and no `node_updated` is staged
      .proceed (s.set_node node_id { node with status := .QUEUED })
    else .proceed s

/-! ## The context -/

/-- `{pid: node_exec_by_node_id[pid].output_payload for pid in parent_ids if ...}`:
a repeated parent has one entry. -/
def upstream_outputs (nodes : Table String NodeExecution) (parent_ids : List String) :
    JsonObject :=
  (parent_ids.eraseDups.filter fun p => p ∈ nodes.keys).map fun p =>
    (p, Json.of_payload (nodes.row p).output_payload)

/-- The context of one invocation; an execution is known by the number of its
UUID. -/
def build_context (execution_id : ℕ) (execution : Execution)
    (nodes : Table String NodeExecution) (definition : WorkflowDefinition) (node_def : Node)
    (node_id : String) (attempt : ℕ) : ExecutionContext where
  execution_id := execution_id
  node_id := node_id
  idempotency_key := s!"{uuid_str execution_id}:{node_id}:{attempt}"
  config := node_def.config
  workflow_input := execution.input_payload.getD []
  upstream_outputs := upstream_outputs nodes (definition.parent_ids node_id)
  attempt := attempt

/-! ## `_queue_downstream_nodes` -/

/-- `if candidate and candidate != chosen: skip_ids.add(candidate)`. A list or a
dict cannot be added to a set. A number or a bool can, but is the key of no
node, so it is dropped here. -/
def add_skip_id (chosen : Json) (skip_ids : List String) (candidate : Json) :
    Except PyError (List String) :=
  if candidate.truthy && !(candidate.py_eq chosen) then
    match candidate with
    -- `set.add` hashes its argument
    | .arr _ => .error (.type_error "unhashable type: 'list'")
    | .obj _ => .error (.type_error "unhashable type: 'dict'")
    | .str c => .ok (if c ∈ skip_ids then skip_ids else skip_ids ++ [c])
    | _ => .ok skip_ids
  else .ok skip_ids

/-- The unselected branch targets: none for a node that is not a condition. -/
def skip_ids (node_def : Node) (output : JsonObject) : Except PyError (List String) :=
  if node_def.type = "condition" then do
    let chosen := JsonObject.get output "next_node"
    let ids ← add_skip_id chosen [] (JsonObject.get node_def.config "true_path")
    add_skip_id chosen ids (JsonObject.get node_def.config "false_path")
  else .ok []

/-- `for c_id in skipped_children: if c_id not in queue: queue.append(c_id)`. -/
def append_new (queue : List String) : List String → List String
  | [] => queue
  | c :: cs => append_new (if c ∈ queue then queue else queue ++ [c]) cs

/-- The loop that skips the unselected branches and their descendants. -/
def cascade_skip (definition : WorkflowDefinition) :
    ℕ → List String → Session → Except PyError Session
  | 0, _, s => .ok s
  | _ + 1, [], s => .ok s
  | fuel + 1, skip_id :: queue, s =>
    match s.nodes.get? skip_id with
    -- a path may name a node that the workflow does not have
    | none => cascade_skip definition fuel queue s
    | some skip_exec =>
      if skip_exec.status = .PENDING then do
        let s ← transition_node_status s skip_id .PENDING .SKIPPED
        -- a join waits for all its parents, so a skipped one blocks it
        cascade_skip definition fuel (append_new queue (definition.child_ids skip_id)) s
      -- a target that is past PENDING is left alone, and so is what follows it
      else cascade_skip definition fuel queue s

/-- `all(node_exec_by_node_id[p].status == SUCCEEDED for p in parent_ids)`, which
stops at the first parent that has not succeeded. -/
def all_parents_succeeded (nodes : Table String NodeExecution) :
    List String → Except PyError Bool
  | [] => .ok true
  | p :: ps =>
    match nodes.get? p with
    | none => .error (.key_error p)
    | some parent =>
      if parent.status = .SUCCEEDED then all_parents_succeeded nodes ps else .ok false

/-- The loop that queues the children whose parents have all succeeded. -/
def queue_children (definition : WorkflowDefinition) :
    List String → Session → List String → Except PyError (Session × List String)
  | [], s, nodes_to_publish => .ok (s, nodes_to_publish)
  | child_id :: rest, s, nodes_to_publish =>
    match s.nodes.get? child_id with
    | none => queue_children definition rest s nodes_to_publish
    | some child_exec =>
      -- a repeated edge gives a child twice, and the second time it is QUEUED
      if child_exec.status ≠ .PENDING then
        queue_children definition rest s nodes_to_publish
      else do
        let ready ← all_parents_succeeded s.nodes (definition.parent_ids child_id)
        if !ready then queue_children definition rest s nodes_to_publish
        else
          let s ← transition_node_status s child_id .PENDING .QUEUED
          queue_children definition rest s (nodes_to_publish ++ [child_id])

/-- `_queue_downstream_nodes`: the session and the ids to publish. -/
def queue_downstream_nodes (s : Session) (definition : WorkflowDefinition) (node_def : Node)
    (node_id : String) (result : ExecutorResult) :
    Except PyError (Session × List String) :=
  let children := definition.child_ids node_id
  -- the paths of a condition without successors are not looked at
  if children = [] then .ok (s, [])
  else do
    let queue ← skip_ids node_def result.output
    -- an id enters the queue at the start or through an edge
    let s ← cascade_skip definition (queue.length + definition.edges.length) queue s
    queue_children definition children s []

/-! ## `_handle_node_failure` -/

/-- `node.error_message or "max attempts exceeded"`. -/
def dead_letter_reason : Option String → String
  | none => "max attempts exceeded"
  | some e => if e = "" then "max attempts exceeded" else e

/-- The job that names a node at an attempt. -/
def Session.job (s : Session) (node_id : String) (attempt : ℕ) : Job where
  execution_id := s.execution_id
  workflow_version_id := s.execution.workflow_version_id
  node_id := node_id
  attempt := attempt

/-- The `DeadLetterJob` row added for a failed node. -/
def Session.dead_letter_job (s : Session) (node_id : String) (node : NodeExecution) :
    DeadLetterJob where
  node_id := node_id
  redis_message_id := node.redis_message_id
  reason := dead_letter_reason node.error_message
  attempts := node.attempt
  payload := s.job node_id node.attempt

/-- `session.add(DeadLetterJob(...))`. -/
def Session.add_dead_letter_job (s : Session) (job : DeadLetterJob) : Session :=
  { s with new_dead_letter_jobs := s.new_dead_letter_jobs ++ [job] }

/-- `_handle_node_failure`: retry while attempts remain, else dead-letter. -/
def handle_node_failure (s : Session) (node_id : String) :
    Except PyError (Session × List String) :=
  let node := s.nodes.row node_id
  if node.attempt < node.max_attempts then do
    -- both transitions are of one transaction: RETRYING is never committed
    let s ← transition_node_status s node_id .FAILED .RETRYING
    let s ← transition_node_status s node_id .RETRYING .QUEUED
    return (retry_scheduled s node_id (s.nodes.row node_id).attempt, [node_id])
  else do
    -- the transition that follows changes none of the columns the row copies
    let job := s.dead_letter_job node_id node
    let s ← transition_node_status s node_id .FAILED .DEAD_LETTERED
    let s := (dead_lettered s node_id node.error_message).add_dead_letter_job job
    -- another node may have failed the execution before
    if s.execution.status = .RUNNING then
      let s ← transition_execution_status s .RUNNING .FAILED
      return (s, [])
    else return (s, [])

/-! ## The completion transaction -/

/-- The end of the transaction: the execution is finished once every node is
terminal, if the instance loaded before the executor ran says RUNNING. -/
def finalise (s : Session) : Except PyError Session :=
  if (s.nodes.all.all fun ne => ne.status ∈ TERMINAL_NODE_STATUSES) ∧
      s.execution.status = .RUNNING then
    let final_status : ExecutionStatus :=
      if s.nodes.all.any fun ne => ne.status ∈ [.FAILED, .DEAD_LETTERED] then .FAILED
      else .SUCCEEDED
    transition_execution_status s .RUNNING final_status
  else .ok s

/-- What the transaction does to a node that is still RUNNING. -/
def complete_node (s : Session) (definition : WorkflowDefinition) (node_def : Node)
    (node_id : String) (node : NodeExecution) (result : ExecutorResult) :
    Except PyError (Session × List String) :=
  if result.success then do
    -- the output is on the instance before the children are looked at
    let s := s.set_node node_id { node with output_payload := some result.output }
    let s ← transition_node_status s node_id .RUNNING .SUCCEEDED
    let s := node_succeeded s node_id
    let (s, nodes_to_publish) ← queue_downstream_nodes s definition node_def node_id result
    let s ← finalise s
    return (s, nodes_to_publish)
  else do
    let s := s.set_node node_id { node with error_message := result.error }
    let s ← transition_node_status s node_id .RUNNING .FAILED
    let s := node_failed s node_id result.error
    let (s, nodes_to_publish) ← handle_node_failure s node_id
    let s ← finalise s
    return (s, nodes_to_publish)

/-- `process_job` from the row lock to the second commit. The session holds the
refreshed node rows and the execution instance loaded after the claim. -/
def process_job_complete (s : Session) (definition : WorkflowDefinition) (node_def : Node)
    (node_id : String) (result : ExecutorResult) : JobOutcome (Session × List String) :=
  match s.nodes.get? node_id with
  -- `next(...)` over the refreshed rows finds nothing
  | none => .raised .stop_iteration
  | some node =>
    -- another worker has completed the node meanwhile
    if node.status ≠ .RUNNING then .returned
    else
      match complete_node s definition node_def node_id node result with
      | .error e => .raised e
      | .ok done => .committed done

end EventFlow
