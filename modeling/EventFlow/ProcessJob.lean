/-
`process_job` as one call: what a worker does with a message from the claim to
the last commit, when the database and Redis answer.

The parts are those of `Runtime.lean`, put together in the order of the source.
Two things come from outside. `outcome` is how `executor.execute(context)` ends:
only an `Exception` is turned into a failed result, so a task that is cancelled
leaves by the `await`. `meanwhile` is what other sessions have committed by the
time the execution row is locked.

Everything after the executor call is outside its `try`. [`process_job_handles_iff`]
says exactly when that part is total: the one value on which it is not is a path
of a condition that is a non-empty list or object, which `validate_config`
accepts and `set.add` does not ([`lists_wedge_worker`]).
-/
import EventFlow.Executors
import EventFlow.System

set_option autoImplicit false

namespace EventFlow

/-! ## The call -/

/-- How `executor.execute(context)` ends. -/
inductive ExecutorOutcome where
  | returned (result : ExecutorResult)
  /-- An `Exception`, with its `str(exc)`. -/
  | raised (message : String)
  /-- What is not an `Exception`: the task is cancelled, the interpreter exits. -/
  | interrupted

/-- The `result` that the `try` statement leaves, if it is left normally. -/
def ExecutorOutcome.result : ExecutorOutcome → Option ExecutorResult
  | .returned result => some result
  | .raised message => some { success := false, error := some message }
  | .interrupted => none

/-- How a call of `process_job` ends, with the rows it leaves. -/
inductive JobRun where
  | returned (rows : ExecutionRows) (published : List Job)
  | raised (error : PyError) (rows : ExecutionRows)
  | interrupted (rows : ExecutionRows)

/-- The rows left by a call. -/
def JobRun.rows : JobRun → ExecutionRows
  | .returned rows _ => rows
  | .raised _ rows => rows
  | .interrupted rows => rows

/-- The loop over `nodes_to_publish` and the commit that follows it; `publish`
gives the message id of a job, or `None`. -/
def publish_jobs (publish : Job → Option ℕ) (rows : ExecutionRows) (session : Session)
    (pubs : List String) : JobRun :=
  let sent := pubs.filterMap fun n =>
    (publish (session.job n (session.nodes.row n).attempt)).map fun id => (n, id)
  .returned { rows with nodes := Sys.set_message_ids rows.nodes sent }
    (Sys.jobs_of session pubs)

/-- `process_job` from the row lock on, for rows that another session may have
changed since the claim. -/
def process_job_finish (publish : Job → Option ℕ) (rows : ExecutionRows) (execution : Execution)
    (job : Job) (now : ℕ) (definition : WorkflowDefinition) (node_def : Node)
    (result : ExecutorResult) : JobRun :=
  let loaded := rows.refresh execution job.execution_id now
  match process_job_complete loaded definition node_def job.node_id result with
  | .returned => .returned rows []
  | .raised error => .raised error rows
  | .committed (session, pubs) =>
    publish_jobs publish (rows.commit loaded session) session pubs

/-- `process_job` on the rows of the execution that `job` names. -/
def process_job (env : Env) (publish : Job → Option ℕ) (meanwhile : ExecutionRows → ExecutionRows)
    (rows : ExecutionRows) (job : Job) (now later : ℕ) (outcome : ExecutorOutcome) : JobRun :=
  let loaded := rows.load job.execution_id now
  match process_job_claim loaded job.node_id with
  | .returned => .returned rows []
  | .raised error => .raised error rows
  | .committed session =>
    let rows := rows.commit loaded session
    match env.versions rows.execution.workflow_version_id with
    | none => .raised (.attribute_error "'NoneType' object has no attribute 'definition'") rows
    | some version =>
      match version.definition.node_def_by_id job.node_id with
      | none => .raised (.key_error job.node_id) rows
      | some node_def =>
        match env.registry.get node_def.type with
        | .error error => .raised (.app error) rows
        | .ok _ =>
          match outcome.result with
          | none => .interrupted rows
          | some result =>
            process_job_finish publish (meanwhile rows) rows.execution job later
              version.definition node_def result

/-- The call returns and leaves the node at rest or queued again. -/
def JobRun.Handles (n : String) : JobRun → Prop
  | .returned rows _ => (rows.nodes.row n).status = .SUCCEEDED ∨
      (rows.nodes.row n).status = .QUEUED ∨ (rows.nodes.row n).status = .DEAD_LETTERED
  | .raised _ _ => False
  | .interrupted _ => False

/-! ## The paths that cannot be hashed -/

/-- `hash(value)` does not raise. -/
def Json.hashable : Json → Bool
  | .arr _ => false
  | .obj _ => false
  | _ => true

/-- A path of the condition that `skip_ids.add` refuses: not empty, not the
chosen one, and a list or an object. -/
def UnhashablePath (node_def : Node) (output : JsonObject) (field : String) : Prop :=
  (JsonObject.get node_def.config field).truthy = true ∧
    (JsonObject.get node_def.config field).py_eq (JsonObject.get output "next_node") = false ∧
    (JsonObject.get node_def.config field).hashable = false

instance (node_def : Node) (output : JsonObject) (field : String) :
    Decidable (UnhashablePath node_def output field) := inferInstanceAs (Decidable (_ ∧ _ ∧ _))

/-- The node is a condition with a successor and such a path. -/
def UnhashableBranch (d : WorkflowDefinition) (node_def : Node) (n : String)
    (output : JsonObject) : Prop :=
  d.child_ids n ≠ [] ∧ node_def.type = "condition" ∧
    (UnhashablePath node_def output "true_path" ∨ UnhashablePath node_def output "false_path")

instance (d : WorkflowDefinition) (node_def : Node) (n : String) (output : JsonObject) :
    Decidable (UnhashableBranch d node_def n output) :=
  inferInstanceAs (Decidable (_ ∧ _ ∧ (_ ∨ _)))

section Paths

variable {d : WorkflowDefinition} {node_def : Node} {n : String} {output : JsonObject}

/-- `skip_ids.add` raises on exactly such a candidate. -/
theorem add_skip_id_cases (chosen : Json) (ids : List String) (candidate : Json) :
    (candidate.truthy = true ∧ candidate.py_eq chosen = false ∧ candidate.hashable = false ∧
      ∃ e, add_skip_id chosen ids candidate = .error e) ∨
    (¬ (candidate.truthy = true ∧ candidate.py_eq chosen = false ∧
        candidate.hashable = false) ∧
      ∃ ids', add_skip_id chosen ids candidate = .ok ids') := by
  unfold add_skip_id
  split
  · rename_i hcond
    rw [Bool.and_eq_true, Bool.not_eq_true'] at hcond
    cases candidate with
    | arr items => exact .inl ⟨hcond.1, hcond.2, rfl, _, rfl⟩
    | obj members => exact .inl ⟨hcond.1, hcond.2, rfl, _, rfl⟩
    | _ => exact .inr ⟨fun h => absurd h.2.2 (by simp [Json.hashable]), _, rfl⟩
  · rename_i hcond
    rw [Bool.and_eq_true, Bool.not_eq_true'] at hcond
    exact .inr ⟨fun h => hcond ⟨h.1, h.2.1⟩, _, rfl⟩

/-- Finding the branch targets raises on an unhashable path and on nothing
else. -/
theorem branch_targets_cases (d : WorkflowDefinition) (node_def : Node) (n : String)
    (output : JsonObject) :
    (UnhashableBranch d node_def n output ∧
      ∃ e, branch_targets d node_def n output = .error e) ∨
    (¬ UnhashableBranch d node_def n output ∧
      ∃ targets, branch_targets d node_def n output = .ok targets) := by
  unfold branch_targets UnhashableBranch
  split
  · rename_i hchild
    exact .inr ⟨fun h => h.1 hchild, [], rfl⟩
  · rename_i hchild
    unfold skip_ids
    split
    · rename_i htype
      rcases add_skip_id_cases (JsonObject.get output "next_node") []
        (JsonObject.get node_def.config "true_path") with ⟨h1, h2, h3, e, he⟩ | ⟨hno, ids, hids⟩
      · refine .inl ⟨⟨hchild, htype, .inl ⟨h1, h2, h3⟩⟩, e, ?_⟩
        simp only [he, bind, Except.bind]
      · rcases add_skip_id_cases (JsonObject.get output "next_node") ids
          (JsonObject.get node_def.config "false_path") with
          ⟨h1, h2, h3, e, he⟩ | ⟨hno', ids', hids'⟩
        · refine .inl ⟨⟨hchild, htype, .inr ⟨h1, h2, h3⟩⟩, e, ?_⟩
          simp only [hids, he, bind, Except.bind]
        · refine .inr ⟨fun h => h.2.2.elim hno hno', ids', ?_⟩
          simp only [hids, hids', bind, Except.bind]
    · rename_i htype
      exact .inr ⟨fun h => htype h.2.1, [], rfl⟩

end Paths

/-! ## The part after the executor -/

section Finish

variable {publish : Job → Option ℕ} {rows : ExecutionRows} {execution : Execution} {job : Job}
  {now : ℕ} {d : WorkflowDefinition} {node_def : Node} {result : ExecutorResult}

/-- Recording message ids moves no status. -/
theorem set_message_ids_status (nodes : Table String NodeExecution) (sent : List (String × ℕ))
    (n : String) : ((Sys.set_message_ids nodes sent).row n).status = (nodes.row n).status := by
  unfold Sys.set_message_ids
  dsimp only
  split <;> rfl

section Complete

variable {s : Session} {n : String} {node : NodeExecution} (hget : s.nodes.get? n = some node)
  (hrun : node.status = .RUNNING)

include hget hrun

/-- On a RUNNING node the transaction does what `complete_node` does. -/
theorem process_job_complete_of_ok {done : Session × List String}
    (h : complete_node s d node_def n node result = .ok done) :
    process_job_complete s d node_def n result = .committed done := by
  simp only [process_job_complete, hget, hrun, ne_eq, not_true_eq_false, if_false, h]

theorem process_job_complete_raised {e : PyError}
    (h : complete_node s d node_def n node result = .error e) :
    process_job_complete s d node_def n result = .raised e := by
  simp only [process_job_complete, hget, hrun, ne_eq, not_true_eq_false, if_false, h]

end Complete

/-- A completion that commits handles the node if its row is at rest or queued
in the session. -/
theorem process_job_finish_committed {session : Session} {pubs : List String}
    (h : process_job_complete (rows.refresh execution job.execution_id now) d node_def
      job.node_id result = .committed (session, pubs))
    (hsteps : Session.Steps (rows.refresh execution job.execution_id now) session)
    (hst : (session.nodes.row job.node_id).status = .SUCCEEDED ∨
      (session.nodes.row job.node_id).status = .QUEUED ∨
      (session.nodes.row job.node_id).status = .DEAD_LETTERED) :
    (process_job_finish publish rows execution job now d node_def result).Handles
      job.node_id := by
  have hnodes : (rows.commit (rows.refresh execution job.execution_id now) session).nodes
      = session.nodes := commit_nodes_of_loaded hsteps.sameFrame rfl
  simp only [process_job_finish, h, publish_jobs, JobRun.Handles, set_message_ids_status, hnodes]
  exact hst

/-- **The part after the executor** fails on a node that is still RUNNING and whose
successful result leaves an unhashable path unselected, and on no other. For a node that
is not RUNNING any more the function returns at once. A failure only needs transitions,
and these go from RUNNING through FAILED. A success also runs `_queue_downstream_nodes`,
where the one thing that can raise is the set of skipped ids; that the parents of every
child have rows is what its join test needs. -/
theorem process_job_finish_handles_iff
    (hps : ∀ c ∈ d.child_ids job.node_id, ∀ p ∈ d.parent_ids c, p ∈ rows.nodes.keys)
    (hkey : job.node_id ∈ rows.nodes.keys)
    (hst : (rows.nodes.row job.node_id).status ∈
      [NodeExecutionStatus.RUNNING, .SUCCEEDED, .QUEUED, .DEAD_LETTERED]) :
    (process_job_finish publish rows execution job now d node_def result).Handles job.node_id ↔
      ((rows.nodes.row job.node_id).status = .RUNNING → result.success = true →
        ¬ UnhashableBranch d node_def job.node_id result.output) := by
  have hget : (rows.refresh execution job.execution_id now).nodes.get? job.node_id
      = some (rows.nodes.row job.node_id) := Table.get?_of_mem hkey
  by_cases hrun : (rows.nodes.row job.node_id).status = .RUNNING
  · cases hres : result.success with
    | true =>
        rcases branch_targets_cases d node_def job.node_id result.output with
          ⟨hbad, e, hT⟩ | ⟨hgood, targets, hT⟩
        · have hcomplete := process_job_complete_raised hget hrun
            (complete_node_error hget hrun hres hT)
          constructor
          · intro h
            simp only [process_job_finish, hcomplete, JobRun.Handles] at h
          · intro h
            exact absurd hbad (h hrun rfl)
        · obtain ⟨session, pubs, hok, hsteps, -, heff, -, -⟩ :=
            complete_node_success hget hrun hres hT hps
          constructor
          · exact fun _ _ _ => hgood
          · intro _
            apply process_job_finish_committed (process_job_complete_of_ok hget hrun hok) hsteps
            rw [heff.row_self (NodeExecution.enter_status ..)]
            exact .inl (NodeExecution.enter_status ..)
    | false =>
        have hhandles : (process_job_finish publish rows execution job now d node_def
            result).Handles job.node_id := by
          by_cases hleft : (rows.nodes.row job.node_id).attempt
              < (rows.nodes.row job.node_id).max_attempts
          · obtain ⟨session, hok, hsteps, -, hnodes, -, -⟩ :=
              complete_node_retry hget hrun hres hleft
            apply process_job_finish_committed (process_job_complete_of_ok hget hrun hok) hsteps
            rw [hnodes, Table.row_set_self]
            exact .inr (.inl (NodeExecution.enter_status ..))
          · obtain ⟨session, hok, hsteps, -, hnodes, -, -⟩ :=
              complete_node_dead hget hrun hres hleft
            apply process_job_finish_committed (process_job_complete_of_ok hget hrun hok) hsteps
            rw [hnodes, Table.row_set_self]
            exact .inr (.inr (NodeExecution.enter_status ..))
        constructor
        · intro _ _ h
          cases h
        · exact fun _ => hhandles
  · -- another worker has completed the node, or taken it back
    have hreturn : process_job_complete (rows.refresh execution job.execution_id now) d node_def
        job.node_id result = .returned := by
      simp only [process_job_complete, hget, ne_eq, hrun, not_false_eq_true, if_true]
    constructor
    · exact fun _ h => absurd h hrun
    · intro _
      simp only [process_job_finish, hreturn, JobRun.Handles]
      simp only [List.mem_cons, List.not_mem_nil, or_false] at hst
      exact hst.resolve_left hrun

end Finish

/-! ## The whole call -/

/-- The rows once the claim is committed. -/
def claimed_rows (rows : ExecutionRows) (job : Job) (now : ℕ) : ExecutionRows :=
  match process_job_claim (rows.load job.execution_id now) job.node_id with
  | .committed session => rows.commit (rows.load job.execution_id now) session
  | _ => rows

section Whole

variable {rows : ExecutionRows} {job : Job}

/-- The claim of a QUEUED node commits, and makes it RUNNING. -/
theorem process_job_claim_queued (now : ℕ) (hkey : job.node_id ∈ rows.nodes.keys)
    (hqueued : (rows.nodes.row job.node_id).status = .QUEUED) :
    ∃ session, process_job_claim (rows.load job.execution_id now) job.node_id
        = .committed session ∧
      claimed_rows rows job now = rows.commit (rows.load job.execution_id now) session ∧
      (claimed_rows rows job now).execution = rows.execution ∧
      (claimed_rows rows job now).nodes
        = rows.nodes.set job.node_id ((rows.nodes.row job.node_id).enter .RUNNING now) := by
  have hget : (rows.load job.execution_id now).nodes.get? job.node_id
      = some (rows.nodes.row job.node_id) := Table.get?_of_mem hkey
  have hclaim := transition_node_status_of_status .RUNNING hget hqueued
  have hnot : (rows.nodes.row job.node_id).status ∉ TERMINAL_NODE_STATUSES := by
    rw [hqueued]
    decide
  obtain ⟨session, hsession⟩ : ∃ session,
      process_job_claim (rows.load job.execution_id now) job.node_id = .committed session := by
    simp only [process_job_claim, hget, hnot, if_false, hclaim]
    exact ⟨_, rfl⟩
  obtain ⟨-, -, hsame, hnodes⟩ := process_job_claim_committed hsession
  have hrows : claimed_rows rows job now
      = rows.commit (rows.load job.execution_id now) session := by
    simp only [claimed_rows, hsession]
  refine ⟨session, hsession, hrows, ?_, ?_⟩
  · rw [hrows, commit_execution_of_same hsame.execution]
  · rw [hrows, commit_nodes_of_loaded hsame.steps.sameFrame rfl, hnodes]
    rfl

end Whole

/-- **When a worker gets past an accepted job.** The node is QUEUED, the database and
Redis answer, and meanwhile the other sessions neither delete the execution nor take the
node outside the statuses a RUNNING node can reach. The call returns and the node ends
SUCCEEDED, QUEUED or DEAD_LETTERED if and only if the executor was not interrupted and,
where the node is still RUNNING, its successful result leaves no unhashable path
unselected. The call is followed part by part: the claim succeeds, since the node is
QUEUED; an executor that raises an `Exception` gives a failed result, and one that is
cancelled leaves the node RUNNING; and the part after it is
[`process_job_finish_handles_iff`]. The definition was accepted, so the configuration of
its conditions has passed `validate_config`, and that is what leaves lists and objects as
the one kind of path that cannot be hashed. -/
theorem process_job_handles_iff (env : Env) (publish : Job → Option ℕ)
    (meanwhile : ExecutionRows → ExecutionRows) (rows : ExecutionRows) (job : Job)
    (now later : ℕ) (outcome : ExecutorOutcome) {version : WorkflowVersion} {node_def : Node}
    (hversion : env.versions rows.execution.workflow_version_id = some version)
    (hvalid : Accepted env.registry version.definition)
    (hkeys : rows.nodes.keys = version.definition.node_ids)
    (hdef : version.definition.node_def_by_id job.node_id = some node_def)
    (hqueued : (rows.nodes.row job.node_id).status = .QUEUED)
    (hothers : ∀ u : ExecutionRows, (meanwhile u).nodes.keys = u.nodes.keys ∧
      ((u.nodes.row job.node_id).status = .RUNNING →
        ((meanwhile u).nodes.row job.node_id).status ∈
          [NodeExecutionStatus.RUNNING, .SUCCEEDED, .QUEUED, .DEAD_LETTERED])) :
    (process_job env publish meanwhile rows job now later outcome).Handles job.node_id ↔
      ∃ result, outcome.result = some result ∧
        (((meanwhile (claimed_rows rows job now)).nodes.row job.node_id).status = .RUNNING →
          result.success = true →
          ¬ UnhashableBranch version.definition node_def job.node_id result.output) := by
  obtain ⟨validation, hvalid⟩ := hvalid
  obtain ⟨hwf, hregistered, -⟩ := validate_workflow_spec hvalid
  obtain ⟨hnode, hid⟩ := WorkflowDefinition.node_def_by_id_eq_some hdef
  obtain ⟨executor, hget⟩ := hregistered node_def hnode
  have hkey : job.node_id ∈ rows.nodes.keys := by
    rw [hkeys]
    exact WorkflowDefinition.mem_node_ids.mpr ⟨node_def, hnode, hid⟩
  obtain ⟨session, hclaim, hrows, hexec, hnodes⟩ := process_job_claim_queued now hkey hqueued
  obtain ⟨hkeys', hst⟩ := hothers (claimed_rows rows job now)
  -- other workers have been at work since the claim; the node is one of four things now
  have hst := hst (by rw [hnodes, Table.row_set_self, NodeExecution.enter_status])
  have hsame : (meanwhile (claimed_rows rows job now)).nodes.keys
      = version.definition.node_ids := by
    rw [hkeys', hnodes, Table.keys_set, hkeys]
  -- the claim commits, and what is left is the executor and the rest
  have hcall : process_job env publish meanwhile rows job now later outcome
      = (outcome.result.elim (.interrupted (claimed_rows rows job now))
          (process_job_finish publish (meanwhile (claimed_rows rows job now)) rows.execution
            job later version.definition node_def)) := by
    rw [← hexec] at hversion ⊢
    rw [hrows] at hversion ⊢
    simp only [process_job, hclaim, hversion, hdef, hget]
    cases outcome.result with
    | none => rfl
    | some result => rfl
  rw [hcall]
  cases outcome.result with
  | none =>
      constructor
      · exact fun h => absurd h id
      · rintro ⟨result, h, -⟩
        cases h
  | some result =>
      rw [Option.elim_some, process_job_finish_handles_iff
        (fun c _ p hp => hsame ▸ hwf.parent_mem hp) (by rw [hsame, ← hkeys]; exact hkey) hst]
      constructor
      · exact fun h => ⟨result, rfl, h⟩
      · rintro ⟨result', h, hok⟩
        cases h
        exact hok

/-- A condition whose `true_path` is a list of ids. -/
def coin : Node where
  id := "coin"
  type := "condition"
  type_length := condition_ne_empty
  config := [("expression", .str "input.side == 1"), ("true_path", .arr [.str "heads"]),
    ("false_path", .str "tails")]

def coin_definition : WorkflowDefinition where
  name := "coin_toss"
  nodes := [coin, { id := "tails", type := "notification", config := [("message", .str "tails")] }]
  edges := [{ from_node := "coin", to_node := "tails" }]

def coin_env : Env where
  registry := default_registry
  versions := fun _ => some ⟨0, 0, coin_definition⟩

/-- The rows after a start: the condition is QUEUED. -/
def coin_rows : ExecutionRows where
  execution := ⟨0, 0, .RUNNING, some 0, none, some [("side", .int 0)]⟩
  nodes.keys := coin_definition.node_ids
  nodes.row := fun n => if n = "coin" then (initial_node coin_definition n).enter .QUEUED 0
    else initial_node coin_definition n

def coin_job : Job := ⟨0, 0, "coin", 1⟩

/-- The call on these rows, with nobody else at work. -/
def coin_run (outcome : ExecutorOutcome) : JobRun :=
  process_job coin_env (fun _ => some 5) id coin_rows coin_job 1 2 outcome

/-- The failed attempt of such a condition is handled. -/
theorem process_job_handles_coin :
    (coin_rows.nodes.row "coin").status = .QUEUED ∧
      (coin_run (.raised "no such side")).Handles "coin" := by
  refine ⟨rfl, ?_⟩
  have hversion : coin_env.versions coin_rows.execution.workflow_version_id
      = some ⟨0, 0, coin_definition⟩ := rfl
  have hdef : coin_definition.node_def_by_id coin_job.node_id = some coin := rfl
  refine (process_job_handles_iff coin_env _ id coin_rows coin_job 1 2 (.raised "no such side")
    hversion ⟨_, rfl⟩ rfl hdef rfl ?_).mpr ?_
  · exact fun u => ⟨rfl, fun h => by rw [id_eq, h]; decide⟩
  · exact ⟨{ success := false, error := some "no such side" }, rfl, fun _ h => by cases h⟩

/-- **A list as a path wedges the worker.** The definition is accepted, the
expression evaluates to false and the executor succeeds; the call raises and the
node stays RUNNING. -/
theorem lists_wedge_worker :
    Accepted default_registry coin_definition ∧
      (coin_rows.nodes.row "coin").status = .QUEUED ∧
      ¬ (coin_run (.returned (ConditionExecutor.execute coin.config (.ok false)))).Handles
        "coin" ∧
      ((coin_run (.returned (ConditionExecutor.execute coin.config
        (.ok false)))).rows.nodes.row "coin").status = .RUNNING := by
  refine ⟨⟨_, rfl⟩, rfl, fun h => h, rfl⟩

end EventFlow
