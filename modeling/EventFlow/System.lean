/-
The system: PostgreSQL rows, the Redis stream and channel, and any number of
tasks that run the functions of `Runtime.lean` and `Engine.lean` one commit,
one publish or one ack at a time.

A task is one message being handled by a worker (`process_and_ack` or one turn
of the recovery loop) or one API call. Its `Phase` says where in the code it
is, with the local variables it still needs; `ws_events` is what is staged on
its session. A task that raises stops without an ack, a task that crashes
stops wherever it is, and both leave their message pending.

What is atomic follows the code. A claim reads the row and commits. A
completion holds the lock on the execution row from its first read to its
commit, but the execution *instance* is the one loaded right after the claim
and it is not refreshed, so `complete` runs on a session whose execution may be
stale. Each `publish`, the commit that records the message ids (`finish`), each
broadcast of one envelope (`flush`) and the `ack` are steps of their own.
Recovery comes in two granularities. `recover` and `reclaim` are the two
commits of `process_recovered_job`, the second made from the cached instance;
`recover_claim` is both at once. Which of them a statement is about is said by
its guard.

Delivery is left open: an entry may be delivered at any time and more than
once, by `XREADGROUP` (`claim`) as by `XCLAIM` (`recover`, `recover_claim`), and
also after it has been acked: the recovery loop works through the list that it
has claimed and does not look whether the first owner has acked an entry of it
meanwhile. `committed` is a history variable: the events staged by committed
transactions, in commit order.
-/
import EventFlow.Engine
import EventFlow.Library.Transition

set_option autoImplicit false

namespace EventFlow

/-- A stream entry; its message id is its position. -/
structure StreamEntry where
  job : Job
  acked : Bool := false

/-- Where a task is. A phase is named after what has been committed last, because that is
what the next step builds on; the values it carries are local variables of the source that
are read again later. -/
inductive Phase where
  /-- Nothing in hand. -/
  | idle
  /-- `process_recovered_job` has committed and is about to call `process_job`;
  `cached` is the node instance of its session. -/
  | recovered (msg : ℕ) (job : Job) (cached : NodeExecution)
  /-- The claim is committed. -/
  | claimed (msg : ℕ) (job : Job) (attempt : ℕ)
  /-- The executor is running; `execution` is the instance loaded before. -/
  | invoked (msg : ℕ) (context : ExecutionContext) (execution : Execution)
  /-- The rows are committed and `owed` is still to be published. -/
  | publishing (msg : Option ℕ) (execution_id : ℕ) (owed : List Job)
      (sent : List (String × ℕ))
  /-- All that is left is to flush events and to ack or reply. -/
  | returning (msg : Option ℕ)

/-- A task and the events staged on its session. They are staged in the commit that goes
with them and leave one by one when they are broadcast. -/
structure Task where
  phase : Phase := .idle
  ws_events : List Envelope := []

/-- The state of the system. `stream` is the Redis stream from its beginning, and an entry
is known by its position; `channel` is what has been broadcast so far. A deleted execution
is `none` again, but its id stays below `next_execution_id`. -/
structure Sys where
  executions : ℕ → Option ExecutionRows
  next_execution_id : ℕ
  stream : List StreamEntry
  tasks : ℕ → Task
  clock : ℕ
  committed : List Envelope
  channel : List Envelope

namespace Sys

/-- An empty database, an empty stream and idle tasks. -/
def init : Sys where
  executions := fun _ => none
  next_execution_id := 0
  stream := []
  tasks := fun _ => {}
  clock := 0
  committed := []
  channel := []

/-- Task `t` goes to `phase` with nothing staged. -/
def park (s : Sys) (t : ℕ) (phase : Phase) : Sys :=
  { s with tasks := Function.update s.tasks t { phase } }

/-- Task `t` commits `rows` for execution `e` with `events` staged. What is staged is
committed with the rows: `committed` grows in the same step, and the task still has the
events to broadcast. -/
def commit (s : Sys) (t e : ℕ) (rows : ExecutionRows) (events : List Envelope)
    (phase : Phase) : Sys :=
  { s with
    executions := Function.update s.executions e (some rows)
    committed := s.committed ++ events
    tasks := Function.update s.tasks t { phase, ws_events := events } }

/-- The jobs that name `pubs` at their attempts in `session`. -/
def jobs_of (session : Session) (pubs : List String) : List Job :=
  pubs.map fun n => session.job n (session.nodes.row n).attempt

/-! ## API calls -/

/-- `start_execution` up to its first commit. An error is answered and leaves nothing;
otherwise the roots are owed to the stream, and the task goes on to publish them. -/
def start (env : Env) (s : Sys) (t workflow_version_id : ℕ)
    (input_payload : Option JsonObject) (owner_api_key_id : ℕ) : Option Sys :=
  match (s.tasks t).phase with
  | .idle =>
    match start_execution env workflow_version_id input_payload owner_api_key_id
        s.next_execution_id s.clock with
    -- an error is answered and nothing is committed
    | .error _ => some s
    | .ok (session, pubs) =>
      some { s.commit t s.next_execution_id session.inserted session.ws_events
          (.publishing none s.next_execution_id (jobs_of session pubs) []) with
        next_execution_id := s.next_execution_id + 1 }
  | _ => none

/-- `retry_node` up to its first commit, on the rows as they are. The dead-letter rows are
not part of the session; with the one that is resolved they come back beside it. -/
def retry (env : Env) (s : Sys) (t e : ℕ) (node_id : String) (owner_api_key_id : ℕ) :
    Option Sys :=
  match (s.tasks t).phase with
  | .idle =>
    match s.executions e with
    | none => some s
    | some rows =>
      let loaded := rows.load e s.clock
      match retry_node env loaded rows.dead_letter_jobs node_id owner_api_key_id with
      | .error _ => some s
      | .ok (session, jobs) =>
        some (s.commit t e { rows.commit loaded session with dead_letter_jobs := jobs }
          session.ws_events (.publishing none e (jobs_of session [node_id]) []))
  | _ => none

/-- `delete_execution`. It is one transaction and owes nobody anything, so it needs no
task; entries of the stream that name the execution stay where they are. -/
def delete (env : Env) (s : Sys) (e owner_api_key_id : ℕ) : Option Sys :=
  match s.executions e with
  | none => some s
  | some rows =>
    if delete_execution env rows.execution owner_api_key_id then
      some { s with executions := Function.update s.executions e none }
    else some s

/-! ## Claims -/

/-- `XREADGROUP` hands entry `m` to task `t`, which claims its node. The read and the
commit of the claim are one step here; they are two in `ReadCommitted.lean`. -/
def claim (s : Sys) (t m : ℕ) : Option Sys :=
  match (s.tasks t).phase, s.stream[m]? with
  | .idle, some entry =>
    match s.executions entry.job.execution_id with
    -- the execution has been deleted: `process_job` returns and the entry is acked
    | none => some (s.park t (.returning (some m)))
    | some rows =>
      let loaded := rows.load entry.job.execution_id s.clock
      match process_job_claim loaded entry.job.node_id with
      | .returned => some (s.park t (.returning (some m)))
      -- the handler logs the exception and the entry stays pending
      | .raised _ => some (s.park t .idle)
      | .committed session =>
        some (s.commit t entry.job.execution_id (rows.commit loaded session) session.ws_events
          (.claimed m entry.job (session.nodes.row entry.job.node_id).attempt))
  | _, _ => none

/-- `XCLAIM` has handed entry `m` to task `t`, which runs `process_recovered_job` up to
its commit. The revert and the log are committed even if the claim that follows is
refused; and the node instance stays in the session, for [`reclaim`]. -/
def recover (s : Sys) (t m : ℕ) : Option Sys :=
  match (s.tasks t).phase, s.stream[m]? with
  | .idle, some entry =>
    match s.executions entry.job.execution_id with
    | none => some (s.park t (.returning (some m)))
    | some rows =>
      let loaded := rows.load entry.job.execution_id s.clock
      match process_recovered_job loaded entry.job.node_id m with
      | .missing => some (s.park t (.returning (some m)))
      | .terminal session =>
        some (s.commit t entry.job.execution_id (rows.commit loaded session)
          session.ws_events (.returning (some m)))
      | .proceed session =>
        some (s.commit t entry.job.execution_id (rows.commit loaded session)
          session.ws_events
          (.recovered m entry.job (session.nodes.row entry.job.node_id)))
  | _, _ => none

/-- `process_job`'s claim in the session of a recovered job: the instance is the cached
one, whatever the row says by now. If the row has moved on meanwhile, the claim still sees
QUEUED, and its `UPDATE` writes RUNNING over whatever is there. -/
def reclaim (s : Sys) (t : ℕ) : Option Sys :=
  match s.tasks t with
  | ⟨.recovered m job cached, []⟩ =>
    match s.executions job.execution_id with
    | none => some (s.park t .idle)
    | some rows =>
      -- `session.get` returns the instance the session holds
      let loaded := { rows.load job.execution_id s.clock with
        nodes := rows.nodes.set job.node_id cached }
      match process_job_claim loaded job.node_id with
      | .returned => some (s.park t (.returning (some m)))
      | .raised _ => some (s.park t .idle)
      | .committed session =>
        some (s.commit t job.execution_id (rows.commit loaded session) session.ws_events
          (.claimed m job (session.nodes.row job.node_id).attempt))
  | _ => none

/-- `recover` and `reclaim` in one step. The claim then works on rows nobody has touched
since they were reverted. What the first commit has stored stays when the claim raises. -/
def recover_claim (s : Sys) (t m : ℕ) : Option Sys :=
  match (s.tasks t).phase, s.stream[m]? with
  | .idle, some entry =>
    match s.executions entry.job.execution_id with
    | none => some (s.park t (.returning (some m)))
    | some rows =>
      let loaded := rows.load entry.job.execution_id s.clock
      match process_recovered_job loaded entry.job.node_id m with
      | .missing => some (s.park t (.returning (some m)))
      | .terminal session =>
        some (s.commit t entry.job.execution_id (rows.commit loaded session)
          session.ws_events (.returning (some m)))
      | .proceed session =>
        match process_job_claim session entry.job.node_id with
        | .returned =>
          some (s.commit t entry.job.execution_id (rows.commit loaded session)
            session.ws_events (.returning (some m)))
        | .raised _ =>
          -- the first commit stands and its events were flushed before the claim
          some { s.commit t entry.job.execution_id (rows.commit loaded session)
              session.ws_events .idle with
            channel := s.channel ++ session.ws_events
            tasks := Function.update s.tasks t { phase := .idle } }
        | .committed session =>
          some (s.commit t entry.job.execution_id (rows.commit loaded session)
            session.ws_events
            (.claimed m entry.job (session.nodes.row entry.job.node_id).attempt))
  | _, _ => none

/-! ## Running and completing -/

/-- The definition and the node of a job, looked up through the version row.
Versions are never updated, so it does not matter when the lookup is made. -/
def lookup (env : Env) (rows : ExecutionRows) (node_id : String) :
    Option (WorkflowDefinition × Node) :=
  (env.versions rows.execution.workflow_version_id).bind fun version =>
    (version.definition.node_def_by_id node_id).map fun node_def =>
      (version.definition, node_def)

/-- Load the execution and the node rows, build the context and call the executor. A
missing row, node or executor raises. The context is kept as it was built, so an executor
does not see what is committed while it runs; and so is the execution instance, which the
completion uses. -/
def invoke (env : Env) (s : Sys) (t : ℕ) : Option Sys :=
  match s.tasks t with
  | ⟨.claimed m job attempt, []⟩ =>
    match s.executions job.execution_id with
    | none => some (s.park t .idle)
    | some rows =>
      match lookup env rows job.node_id with
      | none => some (s.park t .idle)
      | some (definition, node_def) =>
        match env.registry.get node_def.type with
        | .error _ => some (s.park t .idle)
        | .ok _ =>
          some (s.park t (.invoked m
            (build_context job.execution_id rows.execution rows.nodes definition node_def
              job.node_id attempt) rows.execution))
  | _ => none

/-- The completion transaction with the executor's `result`. The lock on the execution row
is held from the first read to the commit, which is why this is one step. A result that
comes too late, for a node that is not RUNNING any more, changes nothing. -/
def complete (env : Env) (s : Sys) (t : ℕ) (result : ExecutorResult) : Option Sys :=
  match (s.tasks t).phase with
  | .invoked m context execution =>
    match s.executions context.execution_id with
    | none => some (s.park t .idle)
    | some rows =>
      match lookup env rows context.node_id with
      | none => some (s.park t .idle)
      | some (definition, node_def) =>
        -- the nodes are re-read with `populate_existing`, the execution is not
        let loaded := rows.refresh execution context.execution_id s.clock
        match process_job_complete loaded definition node_def context.node_id result with
        | .returned => some (s.park t (.returning (some m)))
        | .raised _ => some (s.park t .idle)
        | .committed (session, pubs) =>
          some (s.commit t context.execution_id (rows.commit loaded session) session.ws_events
            (.publishing (some m) context.execution_id (jobs_of session pubs) []))
  | _ => none

/-! ## After the commit -/

/-- `XADD` of the next owed job. The ids come back in order, and `sent` collects them for
the commit that follows. -/
def publish (s : Sys) (t : ℕ) : Option Sys :=
  match s.tasks t with
  | ⟨.publishing msg e (job :: owed) sent, events⟩ =>
    some { s with
      stream := s.stream ++ [{ job }]
      tasks := Function.update s.tasks t
        ⟨.publishing msg e owed (sent ++ [(job.node_id, s.stream.length)]), events⟩ }
  | _ => none

/-- A publish that fails raises: nothing more is published and no ack follows. The jobs
that are still owed are lost with it: their rows say QUEUED, and no message will come for
them. -/
def publish_error (s : Sys) (t : ℕ) : Option Sys :=
  match (s.tasks t).phase with
  | .publishing _ _ (_ :: _) _ => some (s.park t .idle)
  | _ => none

/-- `n.redis_message_id = message_id` for every published node. -/
def set_message_ids (nodes : Table String NodeExecution) (sent : List (String × ℕ)) :
    Table String NodeExecution :=
  { nodes with row := fun n =>
      match sent.lookup n with
      | some id => { nodes.row n with redis_message_id := some id }
      | none => nodes.row n }

/-- The commit after the last publish. Without a row to update it raises. It is made also
where nothing was published, and then it writes nothing. -/
def finish (s : Sys) (t : ℕ) : Option Sys :=
  match s.tasks t with
  | ⟨.publishing msg e [] sent, events⟩ =>
    match s.executions e with
    | some rows =>
      some { s with
        executions := Function.update s.executions e
          (some { rows with nodes := set_message_ids rows.nodes sent })
        tasks := Function.update s.tasks t ⟨.returning msg, events⟩ }
    | none =>
      -- an `UPDATE` that matches no row raises `StaleDataError`
      if sent = [] then
        some { s with tasks := Function.update s.tasks t ⟨.returning msg, events⟩ }
      else some (s.park t .idle)
  | _ => none

/-- Whether the code of a phase is at a `flush_events`. A start or a completion publishes
before it flushes, so it is not while a job is owed. -/
def Flushes : Phase → Bool
  | .recovered .. => true
  | .claimed .. => true
  | .returning _ => true
  | _ => false

/-- Broadcast of the next staged envelope. Nobody waits for it; other tasks may commit and
broadcast before the next one. -/
def flush (s : Sys) (t : ℕ) : Option Sys :=
  match s.tasks t with
  | ⟨phase, event :: events⟩ =>
    if Flushes phase then
      some { s with
        channel := s.channel ++ [event]
        tasks := Function.update s.tasks t ⟨phase, events⟩ }
    else none
  | _ => none

/-- `XACK` of entry `m`. -/
def xack (stream : List StreamEntry) (m : ℕ) : List StreamEntry :=
  stream.modify m fun entry => { entry with acked := true }

/-- `XACK` of the message of a task that has returned and has flushed what it had staged.
The pending entry is gone then; the stream keeps the entry itself. -/
def ack (s : Sys) (t : ℕ) : Option Sys :=
  match s.tasks t with
  | ⟨.returning (some m), []⟩ => some { s.park t .idle with stream := xack s.stream m }
  | _ => none

/-- An API call returns. -/
def reply (s : Sys) (t : ℕ) : Option Sys :=
  match s.tasks t with
  | ⟨.returning none, []⟩ => some (s.park t .idle)
  | _ => none

/-- The process dies: its message stays pending, what it owes is lost. Events it has
staged and not broadcast are lost too. A task can crash in every phase but the idle one.
-/
def crash (s : Sys) (t : ℕ) : Option Sys :=
  match (s.tasks t).phase with
  | .idle => none
  | _ => some (s.park t .idle)

end Sys

/-! ## The step function -/

/-- The actions of the system. -/
inductive Action where
  | start (t workflow_version_id : ℕ) (input_payload : Option JsonObject)
      (owner_api_key_id : ℕ)
  | retry (t execution_id : ℕ) (node_id : String) (owner_api_key_id : ℕ)
  | delete (execution_id owner_api_key_id : ℕ)
  | claim (t m : ℕ)
  | recover (t m : ℕ)
  | reclaim (t : ℕ)
  | recover_claim (t m : ℕ)
  | invoke (t : ℕ)
  | complete (t : ℕ) (result : ExecutorResult)
  | publish (t : ℕ)
  | publish_error (t : ℕ)
  | finish (t : ℕ)
  | flush (t : ℕ)
  | ack (t : ℕ)
  | reply (t : ℕ)
  | crash (t : ℕ)

/-- The task that takes an action; a deletion is one request without a task. -/
def Action.task : Action → Option ℕ
  | .start t .. | .retry t .. | .claim t _ | .recover t _ | .reclaim t | .recover_claim t _
  | .invoke t | .complete t _ | .publish t | .publish_error t | .finish t | .flush t | .ack t
  | .reply t | .crash t => some t
  | .delete .. => none

/-- The effect of an action, clock aside. -/
def Sys.act (env : Env) (s : Sys) : Action → Option Sys
  | .start t vid input owner => s.start env t vid input owner
  | .retry t e n owner => s.retry env t e n owner
  | .delete e owner => s.delete env e owner
  | .claim t m => s.claim t m
  | .recover t m => s.recover t m
  | .reclaim t => s.reclaim t
  | .recover_claim t m => s.recover_claim t m
  | .invoke t => s.invoke env t
  | .complete t result => s.complete env t result
  | .publish t => s.publish t
  | .publish_error t => s.publish_error t
  | .finish t => s.finish t
  | .flush t => s.flush t
  | .ack t => s.ack t
  | .reply t => s.reply t
  | .crash t => s.crash t

/-- One step of the system. -/
def Sys.step (env : Env) (s : Sys) (a : Action) : Option Sys :=
  (s.act env a).map fun s' => { s' with clock := s.clock + 1 }

/-- The alphabet in which a recovered claim is one step. -/
def Action.atomic : Action → Bool
  | .recover .. => false
  | .reclaim .. => false
  | _ => true

/-- The alphabet in which `process_recovered_job` commits twice. -/
def Action.fine : Action → Bool
  | .recover_claim .. => false
  | _ => true

end EventFlow
