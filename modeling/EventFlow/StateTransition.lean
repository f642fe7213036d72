/-
`services/state_transition.py` and `observability/log_helpers.py`: the only
functions that move statuses, and the helpers that record what happened.

Both transition methods re-select the row by id and then check and assign on
the instance the session already holds, so they work on the session alone. A
failed check raises before anything is assigned: [`transition_node_status_ok`]
inverts a successful call into the row it found and the session it left.

`Session.Steps` collects what a unit of work can do to a session: transitions,
payload assignments, log rows and dead-letter rows, in any order. Facts that
each of these keeps hold across `process_job` without opening it again.
-/
import EventFlow.Models
import Mathlib.Logic.Relation

set_option autoImplicit false

namespace EventFlow

/-! ## Transitions -/

/-- The assignments of `transition_node_status` for one target status. -/
def NodeExecution.enter (node : NodeExecution) (to_status : NodeExecutionStatus) (now : ℕ) :
    NodeExecution :=
  match to_status with
  | .QUEUED =>
    -- every transition into QUEUED starts a new attempt
    { node with status := .QUEUED, queued_at := some now, attempt := node.attempt + 1 }
  | .RUNNING => { node with status := .RUNNING, started_at := some now }
  | .SUCCEEDED => { node with status := .SUCCEEDED, finished_at := some now }
  | .FAILED => { node with status := .FAILED, finished_at := some now }
  | .SKIPPED => { node with status := .SKIPPED, finished_at := some now }
  | .DEAD_LETTERED => { node with status := .DEAD_LETTERED, finished_at := some now }
  | .PENDING => { node with status := .PENDING }
  | .RETRYING => { node with status := .RETRYING }

/-- `StateTransitionService.transition_node_status`. -/
def transition_node_status (s : Session) (node_id : String)
    (from_status to_status : NodeExecutionStatus) : Except PyError Session :=
  match s.nodes.get? node_id with
  | none => .error (.app
      { message := "NodeExecution not found", code := "not_found", status_code := 404 })
  | some node =>
    if node.status ≠ from_status then
      .error (.app
        { message := "Invalid node transition: cannot transition from " ++ node.status.name ++
            " to " ++ to_status.name ++ " (expected " ++ from_status.name ++ ")",
          code := "invalid_transition" })
    else
      let node := node.enter to_status s.now
      .ok ((s.set_node node_id node).stage_event
        (.node_updated node_id to_status node.attempt))

/-- The assignments of `transition_execution_status`. -/
def Execution.enter (execution : Execution) (to_status : ExecutionStatus) (now : ℕ) :
    Execution :=
  if to_status = .RUNNING then
    { execution with status := to_status, started_at := some now }
  else if to_status ∈ TERMINAL_EXECUTION_STATUSES then
    { execution with status := to_status, finished_at := some now }
  else { execution with status := to_status }

/-- `StateTransitionService.transition_execution_status`. The session holds the
instance, so the `not_found` branch of the method has no counterpart. -/
def transition_execution_status (s : Session) (from_status to_status : ExecutionStatus) :
    Except PyError Session :=
  if s.execution.status ≠ from_status then
    .error (.app
      { message := "Invalid execution transition: cannot transition from " ++
          s.execution.status.name ++ " to " ++ to_status.name ++
          " (expected " ++ from_status.name ++ ")",
        code := "invalid_transition" })
  else
    .ok ({ s with execution := s.execution.enter to_status s.now }.stage_event
      (.execution_updated to_status))

/-! ## Log rows -/

/-- `_add_log`: one `ExecutionLog` row and the event that announces it. -/
def add_log (s : Session) (node_id : Option String) (level : LogLevel)
    (event_type message : String) (metadata : Option JsonObject) : Session :=
  let log : ExecutionLog := { node_id, level, event_type, message, metadata }
  { s with new_logs := s.new_logs ++ [log] }.stage_event (.execution_log log)

def execution_started (s : Session) : Session :=
  add_log s none .INFO "execution_started" "Execution started" none

def node_started (s : Session) (node_id : String) : Session :=
  add_log s (some node_id) .INFO "node_started" s!"Node {node_id} started"
    (some [("node_id", .str node_id)])

def node_succeeded (s : Session) (node_id : String) : Session :=
  add_log s (some node_id) .INFO "node_succeeded" s!"Node {node_id} succeeded"
    (some [("node_id", .str node_id)])

/-- A nullable string as a JSON value. -/
def json_of_error : Option String → Json
  | none => .null
  | some e => .str e

def node_failed (s : Session) (node_id : String) (error : Option String) : Session :=
  add_log s (some node_id) .ERROR "node_failed" s!"Node {node_id} failed"
    (some [("node_id", .str node_id), ("error", json_of_error error)])

def retry_scheduled (s : Session) (node_id : String) (attempt : ℕ) : Session :=
  add_log s (some node_id) .WARNING "retry_scheduled"
    s!"Node {node_id} retry scheduled (attempt {attempt})"
    (some [("node_id", .str node_id), ("attempt", .int attempt)])

def dead_lettered (s : Session) (node_id : String) (reason : Option String) : Session :=
  add_log s (some node_id) .ERROR "dead_lettered" s!"Node {node_id} dead-lettered"
    (some [("node_id", .str node_id), ("reason", json_of_error reason)])

/-- The worker names of the log row are not modelled: workers are anonymous. -/
def worker_recovered_job (s : Session) (node_id : String) (redis_message_id : ℕ) : Session :=
  add_log s (some node_id) .INFO "job_recovered" "Stale pending job reclaimed"
    (some [("redis_message_id", .int redis_message_id),
      ("recovery_reason", .str "pending_idle_timeout_exceeded")])

/-! ## What a transition does -/

section Enter

variable (node : NodeExecution) (to_status : NodeExecutionStatus) (now : ℕ)

@[simp] theorem NodeExecution.enter_status : (node.enter to_status now).status = to_status := by
  cases to_status <;> rfl

theorem NodeExecution.enter_attempt : (node.enter to_status now).attempt
    = if to_status = .QUEUED then node.attempt + 1 else node.attempt := by
  cases to_status <;> rfl

@[simp] theorem NodeExecution.enter_queued_attempt :
    (node.enter .QUEUED now).attempt = node.attempt + 1 := rfl

@[simp] theorem NodeExecution.enter_node_type :
    (node.enter to_status now).node_type = node.node_type := by
  cases to_status <;> rfl

@[simp] theorem NodeExecution.enter_max_attempts :
    (node.enter to_status now).max_attempts = node.max_attempts := by
  cases to_status <;> rfl

@[simp] theorem NodeExecution.enter_output_payload :
    (node.enter to_status now).output_payload = node.output_payload := by
  cases to_status <;> rfl

@[simp] theorem NodeExecution.enter_error_message :
    (node.enter to_status now).error_message = node.error_message := by
  cases to_status <;> rfl

end Enter

@[simp] theorem Execution.enter_status (execution : Execution) (to_status : ExecutionStatus)
    (now : ℕ) : (execution.enter to_status now).status = to_status := by
  unfold Execution.enter
  split
  · rfl
  · split <;> rfl

@[simp] theorem Execution.enter_workflow_version_id (execution : Execution)
    (to_status : ExecutionStatus) (now : ℕ) :
    (execution.enter to_status now).workflow_version_id = execution.workflow_version_id := by
  unfold Execution.enter
  split
  · rfl
  · split <;> rfl

@[simp] theorem Execution.enter_workflow_id (execution : Execution)
    (to_status : ExecutionStatus) (now : ℕ) :
    (execution.enter to_status now).workflow_id = execution.workflow_id := by
  unfold Execution.enter
  split
  · rfl
  · split <;> rfl

@[simp] theorem Execution.enter_input_payload (execution : Execution)
    (to_status : ExecutionStatus) (now : ℕ) :
    (execution.enter to_status now).input_payload = execution.input_payload := by
  unfold Execution.enter
  split
  · rfl
  · split <;> rfl

/-- **Inversion of a node transition**: the row existed in the expected status, and it and
its event are all that changed. This is all that later modules use of the method. A call
that fails has raised before it assigned anything, so there is nothing to be said of the
session it leaves. -/
theorem transition_node_status_ok {s s' : Session} {n : String}
    {from_status to_status : NodeExecutionStatus}
    (h : transition_node_status s n from_status to_status = .ok s') :
    ∃ node, s.nodes.get? n = some node ∧ node.status = from_status ∧
      s' = (s.set_node n (node.enter to_status s.now)).stage_event
        (.node_updated n to_status (node.enter to_status s.now).attempt) := by
  unfold transition_node_status at h
  split at h
  · cases h
  · rename_i node hnode
    split at h
    · cases h
    · rename_i hst
      cases h
      exact ⟨node, hnode, not_not.mp hst, rfl⟩

/-- A row in the expected status makes the transition. -/
theorem transition_node_status_of_status {s : Session} {n : String} {node : NodeExecution}
    {from_status : NodeExecutionStatus} (to_status : NodeExecutionStatus)
    (hnode : s.nodes.get? n = some node) (hst : node.status = from_status) :
    transition_node_status s n from_status to_status
      = .ok ((s.set_node n (node.enter to_status s.now)).stage_event
        (.node_updated n to_status (node.enter to_status s.now).attempt)) := by
  simp only [transition_node_status, hnode, hst, ne_eq, not_true_eq_false, if_false]

/-- **Inversion of an execution transition.** The execution row is always there; what can
go wrong is the status only. -/
theorem transition_execution_status_ok {s s' : Session}
    {from_status to_status : ExecutionStatus}
    (h : transition_execution_status s from_status to_status = .ok s') :
    s.execution.status = from_status ∧
      s' = { s with execution := s.execution.enter to_status s.now }.stage_event
        (.execution_updated to_status) := by
  unfold transition_execution_status at h
  split at h
  · cases h
  · rename_i hst
    cases h
    exact ⟨not_not.mp hst, rfl⟩

theorem transition_execution_status_of_status {s : Session} {from_status : ExecutionStatus}
    (to_status : ExecutionStatus) (hst : s.execution.status = from_status) :
    transition_execution_status s from_status to_status
      = .ok ({ s with execution := s.execution.enter to_status s.now }.stage_event
        (.execution_updated to_status)) := by
  simp only [transition_execution_status, hst, ne_eq, not_true_eq_false, if_false]

/-! ## The fields an operation leaves alone -/

section Frame

variable (s : Session) (n : String) (node : NodeExecution) (data : EventData)

@[simp] theorem Session.set_node_nodes : (s.set_node n node).nodes = s.nodes.set n node := rfl
@[simp] theorem Session.set_node_execution : (s.set_node n node).execution = s.execution := rfl
@[simp] theorem Session.set_node_execution_id :
    (s.set_node n node).execution_id = s.execution_id := rfl
@[simp] theorem Session.set_node_ws_events : (s.set_node n node).ws_events = s.ws_events := rfl
@[simp] theorem Session.set_node_new_dead_letter_jobs :
    (s.set_node n node).new_dead_letter_jobs = s.new_dead_letter_jobs := rfl
@[simp] theorem Session.set_node_now : (s.set_node n node).now = s.now := rfl

@[simp] theorem Session.stage_event_nodes : (s.stage_event data).nodes = s.nodes := rfl
@[simp] theorem Session.stage_event_execution :
    (s.stage_event data).execution = s.execution := rfl
@[simp] theorem Session.stage_event_execution_id :
    (s.stage_event data).execution_id = s.execution_id := rfl
@[simp] theorem Session.stage_event_new_dead_letter_jobs :
    (s.stage_event data).new_dead_letter_jobs = s.new_dead_letter_jobs := rfl
@[simp] theorem Session.stage_event_now : (s.stage_event data).now = s.now := rfl
@[simp] theorem Session.stage_event_ws_events : (s.stage_event data).ws_events
    = s.ws_events ++ [⟨s.execution_id, s.now, data⟩] := rfl

variable (id : Option String) (level : LogLevel) (event_type message : String)
  (metadata : Option JsonObject)

@[simp] theorem add_log_nodes :
    (add_log s id level event_type message metadata).nodes = s.nodes := rfl
@[simp] theorem add_log_execution :
    (add_log s id level event_type message metadata).execution = s.execution := rfl
@[simp] theorem add_log_execution_id :
    (add_log s id level event_type message metadata).execution_id = s.execution_id := rfl
@[simp] theorem add_log_new_dead_letter_jobs :
    (add_log s id level event_type message metadata).new_dead_letter_jobs
      = s.new_dead_letter_jobs := rfl
@[simp] theorem add_log_now :
    (add_log s id level event_type message metadata).now = s.now := rfl

end Frame

/-! ## Units of work -/

/-- The node transitions that the engine and the workers ask for. -/
def NodeExecutionStatus.moves : NodeExecutionStatus → NodeExecutionStatus → Bool
  | .PENDING, .QUEUED => true
  | .PENDING, .SKIPPED => true
  | .QUEUED, .RUNNING => true
  | .RUNNING, .SUCCEEDED => true
  | .RUNNING, .FAILED => true
  | .FAILED, .RETRYING => true
  | .FAILED, .DEAD_LETTERED => true
  | .RETRYING, .QUEUED => true
  | .DEAD_LETTERED, .QUEUED => true
  | _, _ => false

/-- One primitive operation of a unit of work. -/
inductive Session.Step : Session → Session → Prop
  | transition {s s' : Session} (n : String) (from_status to_status : NodeExecutionStatus) :
      from_status.moves to_status = true →
      transition_node_status s n from_status to_status = .ok s' → Session.Step s s'
  | transition_execution {s s' : Session} (from_status to_status : ExecutionStatus) :
      transition_execution_status s from_status to_status = .ok s' → Session.Step s s'
  | payload {s : Session} (n : String) (node : NodeExecution)
      (output : Option JsonObject) (error : Option String) : s.nodes.get? n = some node →
      Session.Step s (s.set_node n { node with output_payload := output, error_message := error })
  | log {s : Session} (n : Option String) (level : LogLevel) (event_type message : String)
      (metadata : Option JsonObject) :
      Session.Step s (add_log s n level event_type message metadata)
  | dead_letter {s : Session} (job : DeadLetterJob) :
      Session.Step s { s with new_dead_letter_jobs := s.new_dead_letter_jobs ++ [job] }

/-- A unit of work. -/
abbrev Session.Steps : Session → Session → Prop := Relation.ReflTransGen Session.Step

/-- What no unit of work changes. -/
structure Session.SameFrame (s s' : Session) : Prop where
  execution_id : s'.execution_id = s.execution_id
  now : s'.now = s.now
  keys : s'.nodes.keys = s.nodes.keys
  node_type : ∀ n, (s'.nodes.row n).node_type = (s.nodes.row n).node_type
  max_attempts : ∀ n, (s'.nodes.row n).max_attempts = (s.nodes.row n).max_attempts
  redis_message_id :
    ∀ n, (s'.nodes.row n).redis_message_id = (s.nodes.row n).redis_message_id
  workflow_id : s'.execution.workflow_id = s.execution.workflow_id
  workflow_version_id : s'.execution.workflow_version_id = s.execution.workflow_version_id
  input_payload : s'.execution.input_payload = s.execution.input_payload

theorem Session.SameFrame.refl (s : Session) : Session.SameFrame s s :=
  ⟨rfl, rfl, rfl, fun _ => rfl, fun _ => rfl, fun _ => rfl, rfl, rfl, rfl⟩

theorem Session.SameFrame.trans {s u v : Session} (h₁ : Session.SameFrame s u)
    (h₂ : Session.SameFrame u v) : Session.SameFrame s v where
  execution_id := h₂.execution_id.trans h₁.execution_id
  now := h₂.now.trans h₁.now
  keys := h₂.keys.trans h₁.keys
  node_type n := (h₂.node_type n).trans (h₁.node_type n)
  max_attempts n := (h₂.max_attempts n).trans (h₁.max_attempts n)
  redis_message_id n := (h₂.redis_message_id n).trans (h₁.redis_message_id n)
  workflow_id := h₂.workflow_id.trans h₁.workflow_id
  workflow_version_id := h₂.workflow_version_id.trans h₁.workflow_version_id
  input_payload := h₂.input_payload.trans h₁.input_payload

/-- Replacing one row by one that agrees in the frame columns. -/
theorem Session.SameFrame.set_node {s : Session} {n : String} {node node' : NodeExecution}
    (hnode : s.nodes.get? n = some node) (htype : node'.node_type = node.node_type)
    (hmax : node'.max_attempts = node.max_attempts)
    (hmsg : node'.redis_message_id = node.redis_message_id) :
    Session.SameFrame s (s.set_node n node') := by
  obtain ⟨-, rfl⟩ := Table.get?_eq_some_iff.mp hnode
  refine ⟨rfl, rfl, rfl, fun m => ?_, fun m => ?_, fun m => ?_, rfl, rfl, rfl⟩
  all_goals
    by_cases hm : m = n
    · subst hm
      simp [htype, hmax, hmsg]
    · simp [Table.row_set_of_ne _ _ hm]

theorem Session.Step.sameFrame {s s' : Session} (h : Session.Step s s') :
    Session.SameFrame s s' := by
  cases h with
  | transition n from_status to_status hmove h =>
      obtain ⟨node, hnode, -, rfl⟩ := transition_node_status_ok h
      have : Session.SameFrame s (s.set_node n (node.enter to_status s.now)) :=
        .set_node hnode (by simp) (by simp) (by cases to_status <;> rfl)
      exact ⟨this.1, this.2, this.3, this.4, this.5, this.6, this.7, this.8, this.9⟩
  | transition_execution from_status to_status h =>
      obtain ⟨-, rfl⟩ := transition_execution_status_ok h
      exact ⟨rfl, rfl, rfl, fun _ => rfl, fun _ => rfl, fun _ => rfl, by simp, by simp, by simp⟩
  | payload n node output error hnode => exact Session.SameFrame.set_node hnode rfl rfl rfl
  | log => exact ⟨rfl, rfl, rfl, fun _ => rfl, fun _ => rfl, fun _ => rfl, rfl, rfl, rfl⟩
  | dead_letter =>
      exact ⟨rfl, rfl, rfl, fun _ => rfl, fun _ => rfl, fun _ => rfl, rfl, rfl, rfl⟩

theorem Session.Steps.sameFrame {s s' : Session} (h : Session.Steps s s') :
    Session.SameFrame s s' := by
  induction h with
  | refl => exact .refl s
  | tail _ hstep ih => exact ih.trans hstep.sameFrame

/-- A step appends to the staged events, and only events about its own
execution. -/
theorem Session.Step.ws_events {s s' : Session} (h : Session.Step s s') :
    ∃ new, s'.ws_events = s.ws_events ++ new ∧
      ∀ event ∈ new, event.execution_id = s.execution_id := by
  cases h with
  | transition n from_status to_status hmove h =>
      obtain ⟨node, -, -, rfl⟩ := transition_node_status_ok h
      exact ⟨_, rfl, by simp⟩
  | transition_execution from_status to_status h =>
      obtain ⟨-, rfl⟩ := transition_execution_status_ok h
      exact ⟨_, rfl, by simp⟩
  | payload => exact ⟨[], by simp, by simp⟩
  | log => exact ⟨_, rfl, by simp⟩
  | dead_letter => exact ⟨[], by simp, by simp⟩

theorem Session.Steps.ws_events {s s' : Session} (h : Session.Steps s s') :
    ∃ new, s'.ws_events = s.ws_events ++ new ∧
      ∀ event ∈ new, event.execution_id = s.execution_id := by
  induction h with
  | refl => exact ⟨[], by simp, by simp⟩
  | tail hprev hstep ih =>
      obtain ⟨new, hnew, hid⟩ := ih
      obtain ⟨last, hlast, hid'⟩ := hstep.ws_events
      refine ⟨new ++ last, by rw [hlast, hnew, List.append_assoc], fun event hevent => ?_⟩
      rcases List.mem_append.mp hevent with hevent | hevent
      · exact hid event hevent
      · rw [hid' event hevent, Session.Steps.sameFrame hprev |>.execution_id]

/-! ## What a current session commits -/

section Commit

variable {rows : ExecutionRows} {loaded s : Session}

/-- Node instances that were current when loaded are written as they are. -/
theorem commit_nodes_of_loaded (hframe : Session.SameFrame loaded s)
    (hloaded : loaded.nodes = rows.nodes) : (rows.commit loaded s).nodes = s.nodes := by
  have hrow : ∀ n, (rows.nodes.row n).flush (s.nodes.row n) (rows.nodes.row n)
      = s.nodes.row n := by
    intro n
    refine NodeExecution.flush_loaded ?_ ?_
    · rw [hframe.node_type, hloaded]
    · rw [hframe.max_attempts, hloaded]
  have hkeys : s.nodes.keys = rows.nodes.keys := by rw [hframe.keys, hloaded]
  simp only [ExecutionRows.commit, hloaded, hrow, ← hkeys]

/-- A session that has not touched the execution leaves its row alone. -/
theorem commit_execution_of_same (h : s.execution = loaded.execution) :
    (rows.commit loaded s).execution = rows.execution := by
  simp only [ExecutionRows.commit, h, Execution.flush_untouched]

end Commit

end EventFlow
