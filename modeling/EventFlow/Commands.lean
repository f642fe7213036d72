/-
`ExecutionEngine.start_execution` and `retry_node` with the servers they talk
to: PostgreSQL, the Redis stream, and every call that can fail on the way.

`Tables.lean` has the two commands as functions on the tables, where a publish
that raises leaves the rows of the first commit. Here a command runs in a
`World` of tables and stream. Each commit and each `XADD` may succeed, be
refused, or be `lost`: it has had its effect, and the command sees an exception
all the same. A statement before the first commit and the read that builds the
reply may raise. `flush_events` is left out, since it never raises and writes
neither of the two.

Both commands commit first and publish afterwards. [`commands_atomic_iff`] is
what that comes to: a command that raises has left everything as it was, unless
it failed at or after its own first commit. [`start_starts_iff`] is about a start
that returns: it has started something, unless the definition has no nodes.
-/
import EventFlow.TablesSpec

set_option autoImplicit false

namespace EventFlow

/-! ## The world of a command -/

/-- The fields of a stream entry (`serialize_job_payload`). -/
structure Message where
  execution_id : ℕ
  node_execution_id : ℕ
  workflow_version_id : ℕ
  node_id : String
  attempt : ℕ
deriving DecidableEq, Repr

/-- PostgreSQL and the stream. -/
structure World where
  tables : Tables
  stream : List Message := []

/-- How a commit ends. -/
inductive Fate where
  | ok
  /-- It raises and has had no effect. -/
  | refused
  /-- It has had its effect, and raises. -/
  | lost
deriving DecidableEq, Repr

/-- What goes wrong with the calls of one command. Which publishes raise is said
by what publishing returns; `lost` is whether such a publish has added its entry
all the same. -/
structure Faults where
  /-- A statement before the first commit raises. -/
  statement : Bool := false
  commit : Fate := .ok
  lost : String → Bool := fun _ => false
  second_commit : Fate := .ok
  /-- The read that builds the reply raises. -/
  reload : Bool := false

/-- How a command fails. -/
inductive CommandError where
  | service (error : ServiceError)
  | database
  | queue

/-- The loop of `publish_node_execution` calls: whether it gets through, and the
stream it leaves. -/
def publish_loop (publish : String → Option (Option ℕ)) (lost : String → Bool)
    (message : String → Message) : List String → List Message → Bool × List Message
  | [], stream => (true, stream)
  | n :: rest, stream =>
    match publish n with
    | some _ => publish_loop publish lost message rest (stream ++ [message n])
    | none => (false, if lost n then stream ++ [message n] else stream)

/-! ## `start_execution` -/

/-- `start_execution` up to its first commit: its session, the nodes it is going
to publish, and the tables after the commit. -/
def Tables.prepare_start (s : Tables) (env : ServiceEnv) (workflow_version_id : ℕ)
    (input_payload : JsonObject) (owner_api_key_id : ℕ) (new : NewExecution) :
    Except ServiceError (Session × List String × Tables) :=
  match s.workflow_versions.find? fun v => decide (v.id = workflow_version_id) with
  | none => .error (.app "Workflow version not found" "not_found" 404)
  | some version =>
    match s.workflows.find? fun w => decide (w.id = version.workflow_id) with
    | none => .error (.app "Workflow version not found" "not_found" 404)
    | some workflow =>
      if workflow.owner_api_key_id ≠ owner_api_key_id then
        .error (.app "Unauthorized access to workflow" "unauthorized" 403)
      else
        match WorkflowDefinition.model_validate env.pydantic version.definition with
        | .error errors => .error (.validation errors)
        | .ok definition =>
          let found : WorkflowVersion :=
            { workflow_id := workflow.id, owner_api_key_id := workflow.owner_api_key_id
              definition }
          match EventFlow.start_execution ⟨env.registry, fun _ => some found⟩
              workflow_version_id (some input_payload) owner_api_key_id new.execution_id
              new.now with
          | .error err => .error (.py err)
          | .ok (session, published) =>
            match s.insert_execution new session.inserted with
            | none => .error .integrity_error
            | some s₁ => .ok (session, published, s₁)

/-- The job that a start publishes for a node. -/
def NewExecution.message (new : NewExecution) (workflow_version_id : ℕ) (session : Session)
    (n : String) : Message where
  execution_id := new.execution_id
  node_execution_id := new.node_pk n
  workflow_version_id := workflow_version_id
  node_id := n
  attempt := (session.nodes.row n).attempt

/-- `ExecutionEngine.start_execution`. -/
def World.start_execution (w : World) (env : ServiceEnv) (workflow_version_id : ℕ)
    (input_payload : JsonObject) (owner_api_key_id : ℕ) (new : NewExecution)
    (faults : Faults) : Except CommandError (Option ExecutionDTO) × World :=
  if faults.statement then (.error .database, w)
  else
    match w.tables.prepare_start env workflow_version_id input_payload owner_api_key_id new with
    | .error err => (.error (.service err), w)
    | .ok (session, published, s₁) =>
      match faults.commit with
      | .refused => (.error .database, w)
      | .lost => (.error .database, { w with tables := s₁ })
      | .ok =>
        let (through, stream) := publish_loop new.publish faults.lost
          (new.message workflow_version_id session) published w.stream
        if !through then (.error .queue, ⟨s₁, stream⟩)
        else
          let s₂ := s₁.set_message_ids new published
          match faults.second_commit with
          | .refused => (.error .database, ⟨s₁, stream⟩)
          | .lost => (.error .database, ⟨s₂, stream⟩)
          | .ok =>
            if faults.reload then (.error .database, ⟨s₂, stream⟩)
            else (.ok (s₂.get_execution new.execution_id owner_api_key_id), ⟨s₂, stream⟩)

/-! ## `retry_node` -/

/-- `retry_node` up to its first commit: the execution, the node as it is then,
and the tables after the commit. -/
def Tables.prepare_retry (s : Tables) (execution_id : ℕ) (node_id : String)
    (owner_api_key_id now : ℕ) :
    Except ServiceError (ExecutionRow × NodeExecutionRow × Tables) :=
  match s.find_execution owner_api_key_id execution_id, s.node_executions.find? fun row =>
      decide (row.execution_id = execution_id ∧ row.node_id = node_id) with
  | some execution, some row =>
    if row.status ≠ .DEAD_LETTERED then
      .error (.app ("Cannot retry node in " ++ row.status.name ++
        " state. Must be DEAD_LETTERED.") "invalid_state" 400)
    else
      let node : NodeExecutionRow := { row with toNodeExecution := row.enter .QUEUED now }
      let jobs := s.dead_letter_jobs.filter fun job =>
        decide (job.node_execution_id = row.id ∧ job.resolved_at = none)
      -- `attempt` is an INTEGER column
      if 2 ^ 31 ≤ node.attempt then .error .data_error
      -- `scalar_one_or_none` refuses a second unresolved row
      else if 2 ≤ jobs.length then .error (.py .multiple_results_found)
      else
        .ok (execution, node,
          { s with
            node_executions := s.node_executions.map fun other =>
              if other.id = node.id then node else other
            dead_letter_jobs := s.dead_letter_jobs.map fun job =>
              if job.id ∈ jobs.map DeadLetterJobRow.id then
                { job with resolved_at := some now
                           resolution_note := some "Manually retried via API" }
              else job })
  -- the join finds no row
  | _, _ => .error (.app "NodeExecution not found" "not_found" 404)

/-- `n.redis_message_id = message_id` for one node. -/
def Tables.set_message_id (s : Tables) (id message_id : ℕ) : Tables :=
  { s with node_executions := s.node_executions.map fun row =>
      if row.id = id then { row with redis_message_id := some message_id } else row }

/-- The job that a retry publishes. -/
def retry_message (execution : ExecutionRow) (node : NodeExecutionRow) : Message where
  execution_id := execution.id
  node_execution_id := node.id
  workflow_version_id := execution.workflow_version_id
  node_id := node.node_id
  attempt := node.attempt

/-- `ExecutionEngine.retry_node`; `publish` is what publishing returns. -/
def World.retry_node (w : World) (execution_id : ℕ) (node_id : String)
    (owner_api_key_id now : ℕ) (publish : Option (Option ℕ)) (faults : Faults) :
    Except CommandError NodeExecutionDTO × World :=
  if faults.statement then (.error .database, w)
  else
    match w.tables.prepare_retry execution_id node_id owner_api_key_id now with
    | .error err => (.error (.service err), w)
    | .ok (execution, node, s₁) =>
      match faults.commit with
      | .refused => (.error .database, w)
      | .lost => (.error .database, { w with tables := s₁ })
      | .ok =>
        let sent := w.stream ++ [retry_message execution node]
        match publish with
        | none => (.error .queue, ⟨s₁, if faults.lost node_id then sent else w.stream⟩)
        -- without a message id there is nothing to commit
        | some none => (.ok (Tables.node_dto node), ⟨s₁, sent⟩)
        | some (some message_id) =>
          let s₂ := s₁.set_message_id node.id message_id
          match faults.second_commit with
          | .refused => (.error .database, ⟨s₁, sent⟩)
          | .lost => (.error .database, ⟨s₂, sent⟩)
          | .ok => (.ok (Tables.node_dto node), ⟨s₂, sent⟩)

/-! ## The loop and the first commit -/

section Prepare

variable {s s₁ : Tables} {env : ServiceEnv} {workflow_version_id owner : ℕ}
  {input_payload : JsonObject} {new : NewExecution} {session : Session}
  {published : List String} {publish : String → Option (Option ℕ)}

/-- The loop gets through if no publish raises, and then every node has its
entry. -/
theorem publish_loop_through (lost : String → Bool) (message : String → Message)
    {ns : List String} (h : ∀ n ∈ ns, publish n ≠ none) (stream : List Message) :
    publish_loop publish lost message ns stream = (true, stream ++ ns.map message) := by
  induction ns generalizing stream with
  | nil => simp [publish_loop]
  | cons n ns ih =>
      obtain ⟨id, hid⟩ := Option.ne_none_iff_exists'.mp (h n List.mem_cons_self)
      rw [publish_loop, hid]
      dsimp only
      rw [ih fun m hm => h m (List.mem_cons_of_mem n hm), List.map_cons, List.append_assoc,
        List.singleton_append]

/-- A publish that raises ends it. -/
theorem publish_loop_stops (lost : String → Bool) (message : String → Message)
    {ns : List String} (h : ∃ n ∈ ns, publish n = none) (stream : List Message) :
    (publish_loop publish lost message ns stream).1 = false := by
  induction ns generalizing stream with
  | nil =>
      obtain ⟨n, hn, -⟩ := h
      cases hn
  | cons n ns ih =>
      rw [publish_loop]
      split
      · rename_i id hid
        apply ih
        obtain ⟨m, hm, hnone⟩ := h
        rcases List.mem_cons.mp hm with rfl | hm
        · rw [hid] at hnone
          cases hnone
        · exact ⟨m, hm, hnone⟩
      · rfl

/-- The ids that a start draws are new. -/
structure NewExecution.Fresh (new : NewExecution) (s : Tables) (d : WorkflowDefinition) :
    Prop where
  execution : insertable (s.executions.map ExecutionRow.id) [new.execution_id] = true
  nodes : insertable (s.node_executions.map NodeExecutionRow.id)
    (d.node_ids.map new.node_pk) = true
  log : insertable (s.execution_logs.map ExecutionLogRow.id) [new.log_pk 0] = true

/-- The version is stored, belongs to a workflow of the caller, and decodes to
`d`. -/
def Tables.StartsVersion (s : Tables) (env : ServiceEnv) (workflow_version_id owner : ℕ)
    (d : WorkflowDefinition) : Prop :=
  ∃ version workflow,
    (s.workflow_versions.find? fun v => decide (v.id = workflow_version_id)) = some version ∧
    (s.workflows.find? fun w => decide (w.id = version.workflow_id)) = some workflow ∧
    workflow.owner_api_key_id = owner ∧
    WorkflowDefinition.model_validate env.pydantic version.definition = .ok d

/-- The one log of a start. -/
theorem start_execution_one_log {env : Env} {vid owner eid now : ℕ} {input : Option JsonObject}
    {s : Session} {pubs : List String}
    (h : start_execution env vid input owner eid now = .ok (s, pubs)) :
    s.new_logs.length = 1 := by
  unfold start_execution at h
  split at h
  · cases h
  split at h
  · cases h
  split at h
  · cases h
  simp only [bind, Except.bind] at h
  split at h
  · cases h
  rename_i s₁ hs₁
  split at h
  · cases h
  rename_i s₂ hs₂
  cases h
  obtain ⟨-, rfl⟩ := transition_execution_status_ok hs₁
  rw [queue_roots_new_logs hs₂]
  rfl

/-- The rows of an execution with one log go in if their ids are new. -/
theorem insert_execution_some_iff {rows : ExecutionRows} (hlog : rows.logs.length = 1) :
    (∃ s₁, s.insert_execution new rows = some s₁) ↔
      insertable (s.executions.map ExecutionRow.id) [new.execution_id] = true ∧
      insertable (s.node_executions.map NodeExecutionRow.id)
        (rows.nodes.keys.map new.node_pk) = true ∧
      insertable (s.execution_logs.map ExecutionLogRow.id) [new.log_pk 0] = true := by
  obtain ⟨log, hlog⟩ := List.length_eq_one_iff.mp hlog
  simp only [Tables.insert_execution, hlog, List.zipIdx_singleton, List.map_cons, List.map_nil,
    List.map_map, Function.comp_def, Bool.and_eq_true]
  split
  · rename_i hfree
    constructor
    · exact fun _ => ⟨hfree.1.1, hfree.1.2, hfree.2⟩
    · exact fun _ => ⟨_, rfl⟩
  · rename_i hfree
    constructor
    · rintro ⟨s₁, h⟩
      cases h
    · exact fun h => absurd ⟨⟨h.1, h.2.1⟩, h.2.2⟩ hfree

/-- **Inversion of the part before the first commit.** What it returns is the session of
`start_execution` on the one version that was found, and its rows. -/
theorem prepare_start_ok
    (h : s.prepare_start env workflow_version_id input_payload owner new
      = .ok (session, published, s₁)) :
    ∃ d found, s.StartsVersion env workflow_version_id owner d ∧ found.definition = d ∧
      start_execution ⟨env.registry, fun _ => some found⟩ workflow_version_id
        (some input_payload) owner new.execution_id new.now = .ok (session, published) ∧
      s.insert_execution new session.inserted = some s₁ := by
  unfold Tables.prepare_start at h
  split at h
  · cases h
  rename_i version hversion
  split at h
  · cases h
  rename_i workflow hworkflow
  split at h
  · cases h
  rename_i howner
  split at h
  · cases h
  rename_i d hd
  dsimp only at h
  split at h
  · cases h
  rename_i session' published' hstart
  split at h
  · cases h
  rename_i s₂ hinsert
  cases h
  exact ⟨d, _, ⟨version, workflow, hversion, hworkflow, not_not.mp howner, hd⟩, rfl, hstart,
    hinsert⟩

/-- **When a start gets to its first commit.** The conditions are those of the lookups, of
the validation that is done again at the start, and of the primary keys. -/
theorem prepare_start_ok_iff :
    (∃ prepared, s.prepare_start env workflow_version_id input_payload owner new
      = .ok prepared) ↔
    ∃ d, s.StartsVersion env workflow_version_id owner d ∧ Accepted env.registry d ∧
      new.Fresh s d := by
  constructor
  · rintro ⟨⟨session, published, s₁⟩, h⟩
    obtain ⟨d, found, hversion, rfl, hstart, hinsert⟩ := prepare_start_ok h
    obtain ⟨version, hfound, haccepted, -, hkeys, -⟩ := start_execution_spec hstart
    cases hfound
    have hfree := (insert_execution_some_iff (start_execution_one_log hstart)).mp ⟨s₁, hinsert⟩
    have hkeys : session.inserted.nodes.keys = found.definition.node_ids := hkeys
    rw [hkeys] at hfree
    exact ⟨_, hversion, haccepted, ⟨hfree.1, hfree.2.1, hfree.2.2⟩⟩
  · rintro ⟨d, ⟨version, workflow, hversion, hworkflow, rfl, hd⟩, haccepted, hfresh⟩
    have hstartable : Startable
        ⟨env.registry, fun _ => some ⟨workflow.id, workflow.owner_api_key_id, d⟩⟩
        workflow_version_id workflow.owner_api_key_id := ⟨_, rfl, rfl, haccepted⟩
    obtain ⟨session, published, hstart⟩ : ∃ session published, start_execution
        ⟨env.registry, fun _ => some ⟨workflow.id, workflow.owner_api_key_id, d⟩⟩
        workflow_version_id (some input_payload) workflow.owner_api_key_id new.execution_id
        new.now = .ok (session, published) := start_execution_ok_iff.mpr hstartable
    obtain ⟨found, hfound, -, -, hkeys, -⟩ := start_execution_spec hstart
    cases hfound
    have hkeys : session.inserted.nodes.keys = d.node_ids := hkeys
    obtain ⟨s₁, hinsert⟩ := (insert_execution_some_iff (start_execution_one_log hstart)).mpr
      ⟨hfresh.execution, hkeys ▸ hfresh.nodes, hfresh.log⟩
    refine ⟨(session, published, s₁), ?_⟩
    simp only [Tables.prepare_start, hversion, hworkflow, ne_eq, not_true_eq_false, if_false, hd,
      hstart, hinsert]

end Prepare

/-! ## Agreement with the tables -/

section Agree

variable (w : World)

/-- Where only publishes fail, a start does to the tables what `Tables.start_execution`
says. So the two models agree: the one with a stream and faults does, where nothing but
publishes fail, what the one without them says. -/
theorem start_execution_tables (env : ServiceEnv) (workflow_version_id : ℕ)
    (input_payload : JsonObject) (owner : ℕ) (new : NewExecution) (lost : String → Bool) :
    (w.start_execution env workflow_version_id input_payload owner new { lost }).2.tables
      = (w.tables.start_execution env workflow_version_id input_payload owner new).2 := by
  unfold World.start_execution Tables.start_execution Tables.prepare_start
  rw [if_neg Bool.false_ne_true]
  cases w.tables.workflow_versions.find? fun v => decide (v.id = workflow_version_id) with
  | none => rfl
  | some version =>
      dsimp only
      cases w.tables.workflows.find? fun row => decide (row.id = version.workflow_id) with
      | none => rfl
      | some workflow =>
          dsimp only
          by_cases howner : workflow.owner_api_key_id ≠ owner
          · rw [if_pos howner, if_pos howner]
          rw [if_neg howner, if_neg howner]
          cases WorkflowDefinition.model_validate env.pydantic version.definition with
          | error errors => rfl
          | ok d =>
              dsimp only
              cases start_execution ⟨env.registry, fun _ => some ⟨workflow.id,
                workflow.owner_api_key_id, d⟩⟩ workflow_version_id (some input_payload) owner
                new.execution_id new.now with
              | error err => rfl
              | ok started =>
                  obtain ⟨session, published⟩ := started
                  dsimp only
                  cases w.tables.insert_execution new session.inserted with
                  | none => rfl
                  | some s₁ =>
                      dsimp only
                      by_cases hnone : ∃ n ∈ published, new.publish n = none
                      · have hany : (published.any fun n => (new.publish n).isNone) = true := by
                          obtain ⟨n, hn, hpub⟩ := hnone
                          exact List.any_eq_true.mpr ⟨n, hn, by rw [hpub]; rfl⟩
                        rw [publish_loop_stops _ _ hnone, if_pos hany]
                        rfl
                      · have hany : ¬ (published.any fun n => (new.publish n).isNone) = true := by
                          intro h
                          obtain ⟨n, hn, hpub⟩ := List.any_eq_true.mp h
                          exact hnone ⟨n, hn, Option.isNone_iff_eq_none.mp hpub⟩
                        rw [publish_loop_through _ _ fun n hn h => hnone ⟨n, hn, h⟩, if_neg hany]
                        rfl

/-- The join of `retry_node` finds a row if the caller has the execution and it
has the node. -/
theorem find_owned_node (s : Tables) (execution_id : ℕ) (node_id : String) (owner : ℕ) :
    (s.node_executions.find? fun row =>
      decide (row.execution_id = execution_id ∧ row.node_id = node_id) &&
        s.owns_execution owner row.execution_id)
    = (s.find_execution owner execution_id).bind fun _ => s.node_executions.find? fun row =>
      decide (row.execution_id = execution_id ∧ row.node_id = node_id) := by
  cases hfind : s.find_execution owner execution_id with
  | none =>
      have hnot : s.owns_execution owner execution_id = false := by
        rw [Tables.owns_execution, List.any_eq_false]
        intro row hrow hown
        exact List.find?_eq_none.mp hfind row hrow hown
      rw [Option.bind_none, List.find?_eq_none]
      intro row _ h
      rw [Bool.and_eq_true, decide_eq_true_eq] at h
      rw [h.1.1, hnot] at h
      cases h.2
  | some execution =>
      have howns : s.owns_execution owner execution_id = true := by
        unfold Tables.find_execution at hfind
        have hown := List.find?_some hfind
        exact List.any_eq_true.mpr ⟨execution, List.mem_of_find?_eq_some hfind, hown⟩
      rw [Option.bind_some]
      congr 1
      funext row
      by_cases hrow : row.execution_id = execution_id ∧ row.node_id = node_id
      · rw [decide_eq_true hrow, hrow.1, howns]
        rfl
      · rw [decide_eq_false hrow, Bool.false_and]

/-- Where only the publish fails, a retry does to the tables what `Tables.retry_node`
says. As for a start. -/
theorem retry_node_tables (execution_id : ℕ) (node_id : String) (owner now : ℕ)
    (publish : Option (Option ℕ)) (lost : String → Bool) :
    (w.retry_node execution_id node_id owner now publish { lost }).2.tables
      = (w.tables.retry_node execution_id node_id owner now publish).2 := by
  unfold World.retry_node Tables.retry_node Tables.prepare_retry
  rw [if_neg Bool.false_ne_true, find_owned_node]
  cases w.tables.find_execution owner execution_id with
  | none => rfl
  | some execution =>
      rw [Option.bind_some]
      cases w.tables.node_executions.find? fun row =>
        decide (row.execution_id = execution_id ∧ row.node_id = node_id) with
      | none => rfl
      | some row =>
          dsimp only
          by_cases hdead : row.status ≠ .DEAD_LETTERED
          · rw [if_pos hdead, if_pos hdead]
          rw [if_neg hdead, if_neg hdead]
          by_cases hattempt : 2 ^ 31 ≤ (row.enter .QUEUED now).attempt
          · rw [if_pos hattempt, if_pos hattempt]
          rw [if_neg hattempt, if_neg hattempt]
          by_cases hjobs : 2 ≤ (w.tables.dead_letter_jobs.filter fun job =>
              decide (job.node_execution_id = row.id ∧ job.resolved_at = none)).length
          · rw [if_pos hjobs, if_pos hjobs]
          rw [if_neg hjobs, if_neg hjobs]
          cases publish with
          | none => rfl
          | some sent =>
              cases sent with
              | none => rfl
              | some message_id =>
                  simp only [Tables.set_message_id, List.map_map, Tables.mk.injEq, true_and,
                    and_true]
                  refine List.map_congr_left fun other _ => ?_
                  by_cases hid : other.id = row.id
                  · simp only [Function.comp_apply, if_pos hid, if_true]
                  · simp only [Function.comp_apply, if_neg hid]

end Agree

/-! ## All or nothing -/

/-- A command that raises has left tables and stream as they were. -/
def AllOrNothing {α : Type} (w : World) (done : Except CommandError α × World) : Prop :=
  (∃ err, done.1 = .error err) → done.2 = w

/-- A start whose first commit takes effect, and that fails there or later. -/
def StartFailsLate (w : World) (env : ServiceEnv) (workflow_version_id owner : ℕ)
    (new : NewExecution) (faults : Faults) : Prop :=
  (∃ d, w.tables.StartsVersion env workflow_version_id owner d ∧ Accepted env.registry d ∧
    new.Fresh w.tables d ∧
    (faults.commit = .lost ∨ (∃ n ∈ d.node_ids, d.parent_ids n = [] ∧ new.publish n = none) ∨
      faults.second_commit ≠ .ok ∨ faults.reload = true)) ∧
  faults.statement = false ∧ faults.commit ≠ .refused

section Start

variable {w : World} {env : ServiceEnv} {workflow_version_id owner : ℕ}
  {input_payload : JsonObject} {new : NewExecution} {faults : Faults}

/-- A version decodes to one definition. -/
theorem Tables.StartsVersion.unique {s : Tables} {d d' : WorkflowDefinition}
    (h : s.StartsVersion env workflow_version_id owner d)
    (h' : s.StartsVersion env workflow_version_id owner d') : d = d' := by
  obtain ⟨version, workflow, hversion, -, -, hd⟩ := h
  obtain ⟨version', workflow', hversion', -, -, hd'⟩ := h'
  rw [hversion] at hversion'
  cases hversion'
  rw [hd] at hd'
  cases hd'
  rfl

/-- The first commit adds an execution. -/
theorem insert_execution_ne {s s₁ s₂ : Tables} {rows : ExecutionRows}
    (h : s.insert_execution new rows = some s₁) (hsame : s₂.executions = s₁.executions) :
    s₂ ≠ s := by
  unfold Tables.insert_execution at h
  dsimp only at h
  split at h
  · cases h
    rintro rfl
    have hlength := congrArg List.length hsame
    simp only [List.length_append, List.length_singleton] at hlength
    omega
  · cases h

/-- A failure after the tables have changed is not all or nothing, and `late` says
why. -/
theorem allOrNothing_iff_of_late {α : Type} {err : CommandError} {s₁ : Tables}
    {stream : List Message} {late : Prop} (hne : s₁ ≠ w.tables) (hlate : late) :
    AllOrNothing w ((.error err, ⟨s₁, stream⟩) : Except CommandError α × World) ↔ ¬ late := by
  constructor
  · intro hall
    exact absurd (congrArg World.tables (hall ⟨err, rfl⟩)) hne
  · exact fun h => absurd hlate h

theorem allOrNothing_error {α : Type} (w : World) (err : CommandError) :
    AllOrNothing w ((.error err, w) : Except CommandError α × World) := fun _ => rfl

theorem allOrNothing_ok {α : Type} (w w' : World) (reply : α) :
    AllOrNothing w ((.ok reply, w') : Except CommandError α × World) := by
  rintro ⟨err, h⟩
  cases h

/-- A start is all or nothing unless it fails late. The cases follow the calls in the
order of the source. What fails before the first commit, or by its refusal, has stored
nothing. Once the commit has taken effect the rows of the new execution are there, so any
failure after it shows. -/
theorem start_atomic_iff :
    AllOrNothing w (w.start_execution env workflow_version_id input_payload owner new faults) ↔
      ¬ StartFailsLate w env workflow_version_id owner new faults := by
  unfold World.start_execution
  split
  · rename_i hstatement
    constructor
    · rintro - ⟨-, h, -⟩
      rw [hstatement] at h
      cases h
    · exact fun _ => allOrNothing_error w _
  rename_i hstatement
  rw [Bool.not_eq_true] at hstatement
  split
  · -- the checks refuse the call
    rename_i err herr
    constructor
    · rintro - ⟨⟨d, hversion, haccepted, hfresh, -⟩, -⟩
      obtain ⟨prepared, hok⟩ : ∃ prepared, w.tables.prepare_start env workflow_version_id
          input_payload owner new = .ok prepared :=
        prepare_start_ok_iff.mpr ⟨d, hversion, haccepted, hfresh⟩
      rw [herr] at hok
      cases hok
    · exact fun _ => allOrNothing_error w _
  rename_i session published s₁ hok
  obtain ⟨d, hversion, haccepted, hfresh⟩ := prepare_start_ok_iff.mp ⟨_, hok⟩
  obtain ⟨d', found, hversion', rfl, hstart, hinsert⟩ := prepare_start_ok hok
  obtain rfl := hversion.unique hversion'
  have hpubs : published = found.definition.node_ids.filter
      (fun n => decide (found.definition.parent_ids n = [])) := by
    obtain ⟨version, hfound, -, -, -, -, -, -, -, -, -, hpubs, -⟩ := start_execution_spec hstart
    cases hfound
    exact hpubs
  have hne : s₁ ≠ w.tables := insert_execution_ne hinsert rfl
  -- past the first commit every failure is a late one
  have late : faults.commit ≠ .refused →
      (faults.commit = .lost ∨ (∃ n ∈ published, new.publish n = none) ∨
        faults.second_commit ≠ .ok ∨ faults.reload = true) →
      StartFailsLate w env workflow_version_id owner new faults := by
    intro hcommit hfault
    refine ⟨⟨found.definition, hversion, haccepted, hfresh, ?_⟩, hstatement, hcommit⟩
    refine hfault.imp_right fun h => h.imp_left fun hn => ?_
    obtain ⟨n, hn, hnone⟩ := hn
    rw [hpubs, List.mem_filter, decide_eq_true_eq] at hn
    exact ⟨n, hn.1, hn.2, hnone⟩
  split
  · rename_i hcommit
    constructor
    · exact fun _ h => h.2.2 hcommit
    · exact fun _ => allOrNothing_error w _
  · rename_i hcommit
    exact allOrNothing_iff_of_late hne (late (by rw [hcommit]; simp) (.inl hcommit))
  rename_i hcommit
  have hcommit' : faults.commit ≠ .refused := by
    rw [hcommit]
    simp
  by_cases hnone : ∃ n ∈ published, new.publish n = none
  · have hstop := publish_loop_stops faults.lost
      (new.message workflow_version_id session) hnone w.stream
    dsimp only
    rw [hstop]
    exact allOrNothing_iff_of_late hne (late hcommit' (.inr (.inl hnone)))
  have hthrough := publish_loop_through faults.lost (new.message workflow_version_id session)
    (fun n hn h => hnone ⟨n, hn, h⟩) w.stream
  have hne' : s₁.set_message_ids new published ≠ w.tables := insert_execution_ne hinsert rfl
  dsimp only
  rw [hthrough, Bool.not_true, if_neg Bool.false_ne_true]
  split
  · rename_i hsecond
    exact allOrNothing_iff_of_late hne (late hcommit' (.inr (.inr (.inl (by rw [hsecond]; simp)))))
  · rename_i hsecond
    exact allOrNothing_iff_of_late hne' (late hcommit' (.inr (.inr (.inl (by rw [hsecond]; simp)))))
  rename_i hsecond
  split
  · rename_i hreload
    exact allOrNothing_iff_of_late hne' (late hcommit' (.inr (.inr (.inr hreload))))
  · rename_i hreload
    constructor
    · -- no call has failed
      rintro - ⟨⟨d, hd, -, -, hlost | ⟨n, hn, hroot, hnopub⟩ | hsec | hrel⟩, -⟩
      · rw [hcommit] at hlost
        cases hlost
      · obtain rfl := hversion.unique hd
        apply hnone
        refine ⟨n, ?_, hnopub⟩
        rw [hpubs, List.mem_filter, decide_eq_true_eq]
        exact ⟨hn, hroot⟩
      · exact hsec hsecond
      · exact hreload hrel
    · exact fun _ => allOrNothing_ok w _ _

end Start

/-- The node that a retry finds: DEAD_LETTERED in an execution of the caller,
with an attempt that can be counted and at most one unresolved dead letter. -/
def Tables.Retries (s : Tables) (execution_id : ℕ) (node_id : String) (owner : ℕ)
    (row : NodeExecutionRow) : Prop :=
  (∃ execution, s.find_execution owner execution_id = some execution) ∧
  (s.node_executions.find? fun row =>
    decide (row.execution_id = execution_id ∧ row.node_id = node_id)) = some row ∧
  row.status = .DEAD_LETTERED ∧ row.attempt + 1 < 2 ^ 31 ∧
  (s.dead_letter_jobs.filter fun job =>
    decide (job.node_execution_id = row.id ∧ job.resolved_at = none)).length < 2

/-- A retry whose first commit takes effect, and that fails there or later. -/
def RetryFailsLate (w : World) (execution_id : ℕ) (node_id : String) (owner : ℕ)
    (publish : Option (Option ℕ)) (faults : Faults) : Prop :=
  (∃ row, w.tables.Retries execution_id node_id owner row) ∧
  faults.statement = false ∧ faults.commit ≠ .refused ∧
  (faults.commit = .lost ∨ publish = none ∨
    (∃ message_id, publish = some (some message_id)) ∧ faults.second_commit ≠ .ok)

section Retry

variable {w : World} {s s₁ : Tables} {execution_id owner now : ℕ} {node_id : String}
  {publish : Option (Option ℕ)} {faults : Faults} {execution : ExecutionRow}
  {node : NodeExecutionRow}

/-- **Inversion of the part before the first commit**: the node is written as
QUEUED over its row. -/
theorem prepare_retry_ok
    (h : s.prepare_retry execution_id node_id owner now = .ok (execution, node, s₁)) :
    ∃ row, s.Retries execution_id node_id owner row ∧ node.id = row.id ∧
      node.status = .QUEUED ∧ s₁.node_executions = s.node_executions.map fun other =>
        if other.id = node.id then node else other := by
  unfold Tables.prepare_retry at h
  split at h
  · rename_i execution' row hexecution hrow
    split at h
    · cases h
    rename_i hdead
    dsimp only at h
    split at h
    · cases h
    rename_i hattempt
    split at h
    · cases h
    rename_i hjobs
    cases h
    have hcount : (row.enter .QUEUED now).attempt = row.attempt + 1 := rfl
    rw [hcount] at hattempt
    exact ⟨row, ⟨⟨execution, hexecution⟩, hrow, not_not.mp hdead, by omega, by omega⟩, rfl, rfl,
      rfl⟩
  · cases h

/-- **When a retry gets to its first commit.** The attempt must fit into its column and
there must not be two unresolved dead letters; either would make it raise. -/
theorem prepare_retry_ok_iff :
    (∃ prepared, s.prepare_retry execution_id node_id owner now = .ok prepared) ↔
      ∃ row, s.Retries execution_id node_id owner row := by
  constructor
  · rintro ⟨⟨execution, node, s₁⟩, h⟩
    obtain ⟨row, hrow, -⟩ := prepare_retry_ok h
    exact ⟨row, hrow⟩
  · rintro ⟨row, ⟨execution, hexecution⟩, hrow, hdead, hattempt, hjobs⟩
    have hcount : (row.enter .QUEUED now).attempt = row.attempt + 1 := rfl
    simp only [Tables.prepare_retry, hexecution, hrow, hdead, ne_eq, not_true_eq_false, if_false,
      hcount]
    rw [if_neg (by omega), if_neg (by omega)]
    exact ⟨_, rfl⟩

/-- A row that is written differently changes the table. -/
theorem map_ne_of_mem {α : Type} {l : List α} {f : α → α} {x : α} (hx : x ∈ l)
    (hf : f x ≠ x) : l.map f ≠ l := by
  intro heq
  exact hf (List.map_eq_map_iff.mp (heq.trans (List.map_id l).symm) x hx)

/-- The first commit moves the node out of DEAD_LETTERED, and the second leaves
it there. -/
theorem prepare_retry_ne
    (h : s.prepare_retry execution_id node_id owner now = .ok (execution, node, s₁)) :
    s₁ ≠ s ∧ ∀ message_id, s₁.set_message_id node.id message_id ≠ s := by
  obtain ⟨row, ⟨-, hrow, hdead, -⟩, hid, hqueued, hnodes⟩ := prepare_retry_ok h
  have hmem := List.mem_of_find?_eq_some hrow
  constructor
  · rintro rfl
    refine map_ne_of_mem hmem ?_ hnodes.symm
    rw [if_pos hid.symm]
    rintro rfl
    rw [hqueued] at hdead
    cases hdead
  · intro message_id heq
    have heq := congrArg Tables.node_executions heq
    simp only [Tables.set_message_id, hnodes, List.map_map] at heq
    refine map_ne_of_mem hmem ?_ heq
    simp only [Function.comp_apply, if_pos hid.symm, if_true]
    intro hsame
    have hstatus := congrArg (fun r : NodeExecutionRow => r.status) hsame
    dsimp only at hstatus
    rw [hqueued, hdead] at hstatus
    cases hstatus

/-- A retry is all or nothing unless it fails late. The row that is written differs from
the one that was there in its status, so a commit shows; otherwise as for a start. -/
theorem retry_atomic_iff :
    AllOrNothing w (w.retry_node execution_id node_id owner now publish faults) ↔
      ¬ RetryFailsLate w execution_id node_id owner publish faults := by
  unfold World.retry_node
  split
  · rename_i hstatement
    constructor
    · rintro - ⟨-, h, -⟩
      rw [hstatement] at h
      cases h
    · exact fun _ => allOrNothing_error w _
  rename_i hstatement
  rw [Bool.not_eq_true] at hstatement
  split
  · rename_i err herr
    constructor
    · rintro - ⟨hretries, -⟩
      obtain ⟨prepared, hok⟩ : ∃ prepared, w.tables.prepare_retry execution_id node_id owner now
          = .ok prepared := prepare_retry_ok_iff.mpr hretries
      rw [herr] at hok
      cases hok
    · exact fun _ => allOrNothing_error w _
  rename_i execution node s₁ hok
  obtain ⟨hne, hne'⟩ := prepare_retry_ne hok
  have late : faults.commit ≠ .refused →
      (faults.commit = .lost ∨ publish = none ∨
        (∃ message_id, publish = some (some message_id)) ∧ faults.second_commit ≠ .ok) →
      RetryFailsLate w execution_id node_id owner publish faults := by
    intro hcommit hfault
    exact ⟨prepare_retry_ok_iff.mp ⟨_, hok⟩, hstatement, hcommit, hfault⟩
  split
  · rename_i hcommit
    constructor
    · exact fun _ h => h.2.2.1 hcommit
    · exact fun _ => allOrNothing_error w _
  · rename_i hcommit
    exact allOrNothing_iff_of_late hne (late (by rw [hcommit]; simp) (.inl hcommit))
  rename_i hcommit
  have hcommit' : faults.commit ≠ .refused := by
    rw [hcommit]
    simp
  dsimp only
  split
  · exact allOrNothing_iff_of_late hne (late hcommit' (.inr (.inl rfl)))
  · -- no message id, no second commit
    constructor
    · rintro - ⟨-, -, -, hlost | hnone | ⟨⟨message_id, hid⟩, -⟩⟩
      · rw [hcommit] at hlost
        cases hlost
      · cases hnone
      · cases hid
    · exact fun _ => allOrNothing_ok w _ _
  rename_i message_id
  split
  · rename_i hsecond
    exact allOrNothing_iff_of_late hne
      (late hcommit' (.inr (.inr ⟨⟨message_id, rfl⟩, by rw [hsecond]; simp⟩)))
  · rename_i hsecond
    exact allOrNothing_iff_of_late (hne' message_id)
      (late hcommit' (.inr (.inr ⟨⟨message_id, rfl⟩, by rw [hsecond]; simp⟩)))
  · rename_i hsecond
    constructor
    · rintro - ⟨-, -, -, hlost | hnone | ⟨-, hsec⟩⟩
      · rw [hcommit] at hlost
        cases hlost
      · cases hnone
      · exact hsec hsecond
    · exact fun _ => allOrNothing_ok w _ _

end Retry

/-- **When an API command is all or nothing.** For every state and every request, whatever
fails: a start or a retry that raises has changed neither the tables nor the stream if and
only if it did not get past its own first commit and fail at that commit, at a publish, at
the second commit or at the read of the reply. The condition is on what fails and on what
is stored before. It does not mention what the command leaves. -/
theorem commands_atomic_iff (env : ServiceEnv) (w : World) :
    (∀ (workflow_version_id : ℕ) (input_payload : JsonObject) (owner : ℕ) (new : NewExecution)
      (faults : Faults),
      AllOrNothing w (w.start_execution env workflow_version_id input_payload owner new faults) ↔
        ¬ StartFailsLate w env workflow_version_id owner new faults) ∧
    ∀ (execution_id : ℕ) (node_id : String) (owner now : ℕ) (publish : Option (Option ℕ))
      (faults : Faults),
      AllOrNothing w (w.retry_node execution_id node_id owner now publish faults) ↔
        ¬ RetryFailsLate w execution_id node_id owner publish faults := by
  constructor
  · intro workflow_version_id input_payload owner new faults
    exact start_atomic_iff
  · intro execution_id node_id owner now publish faults
    exact retry_atomic_iff

/-- A database that holds one version of `d`, of API key 1. -/
def world_of (d : WorkflowDefinition) : World where
  tables := { workflows := [⟨0, 1, d.name, none, 0, 0⟩]
              workflow_versions := [⟨0, 0, 1, d.model_dump, "sum", 0⟩] }

/-- Two nodes without edges. -/
def twins : WorkflowDefinition where
  name := "twins"
  nodes := [{ id := "castor", type := "twin" }, { id := "pollux", type := "twin" }]

/-- The ids of a start of `twins`; `pollux` says what its publish returns. -/
def twin_ids (pollux : Option (Option ℕ)) : NewExecution where
  execution_id := 0
  node_pk := fun n => if n = "castor" then 0 else 1
  log_pk := fun k => k
  now := 0
  publish := fun n => if n = "castor" then some (some 0) else pollux

/-- The start of `twins`. -/
def twin_start (pollux : Option (Option ℕ)) : Except CommandError (Option ExecutionDTO) × World :=
  (world_of twins).start_execution any_services 0 [] 1 (twin_ids pollux) {}

/-- **A failed publish leaves a half-started execution.** The second of two
publishes raises: the caller gets an error, the execution and both its nodes are
stored, and the first message is in the stream. -/
theorem failed_publish_leaves_rows :
    (twin_start none).1 = .error .queue ∧
      (twin_start none).2.tables.executions.map ExecutionRow.id = [0] ∧
      (twin_start none).2.tables.node_executions.map
        (fun row => (row.node_id, row.status, row.attempt))
        = [("castor", .QUEUED, 1), ("pollux", .QUEUED, 1)] ∧
      (twin_start none).2.stream.map Message.node_id = ["castor"] ∧
      ¬ AllOrNothing (world_of twins) (twin_start none) := by
  refine ⟨rfl, rfl, rfl, rfl, fun h => ?_⟩
  have hsame := congrArg (fun w : World => w.stream.length) (h ⟨_, rfl⟩)
  cases hsame

/-! ## A start that returns -/

/-- The job of a row of the execution that is started. -/
def start_message (workflow_version_id : ℕ) (row : NodeExecutionRow) : Message where
  execution_id := row.execution_id
  node_execution_id := row.id
  workflow_version_id := workflow_version_id
  node_id := row.node_id
  attempt := 1

/-- What a start of `d` is for: `rows` are the nodes it has created. -/
structure FullyStarted (d : WorkflowDefinition) (workflow_version_id : ℕ) (new : NewExecution)
    (w w' : World) (rows : List NodeExecutionRow) : Prop where
  /-- One execution, RUNNING. -/
  execution : ∃ row : ExecutionRow, w'.tables.executions = w.tables.executions ++ [row] ∧
    row.id = new.execution_id ∧ row.status = .RUNNING
  /-- One row for each node. -/
  created : w'.tables.node_executions = w.tables.node_executions ++ rows
  of_execution : ∀ row ∈ rows, row.execution_id = new.execution_id
  one_per_node : rows.map NodeExecutionRow.node_id = d.node_ids
  distinct : d.node_ids.Nodup
  /-- The nodes without incoming edges are QUEUED, all others PENDING. -/
  roots : ∀ row ∈ rows, d.parent_ids row.node_id = [] → row.status = .QUEUED ∧ row.attempt = 1
  others : ∀ row ∈ rows, d.parent_ids row.node_id ≠ [] →
    row.status = .PENDING ∧ row.attempt = 0
  /-- One message for each QUEUED node. -/
  published : w'.stream = w.stream ++
    (rows.filter fun row => decide (row.status = .QUEUED)).map
      (start_message workflow_version_id)
  /-- There is something to do. -/
  progress : ∃ row ∈ rows, row.status = .QUEUED

section FullyStarted

variable {w w' : World} {env : ServiceEnv} {workflow_version_id owner : ℕ}
  {input_payload : JsonObject} {new : NewExecution} {faults : Faults} {d : WorkflowDefinition}
  {reply : Option ExecutionDTO}

/-- A definition with nodes has one without incoming edges: follow the edges
backwards from any node. -/
theorem WellFormed.exists_root (hd : WellFormed d) (hne : d.nodes ≠ []) :
    ∃ n ∈ d.node_ids, d.parent_ids n = [] := by
  obtain ⟨node, hnode⟩ := List.exists_mem_of_ne_nil _ hne
  have hid : node.id ∈ d.node_ids := WorkflowDefinition.mem_node_ids.mpr ⟨node, hnode, rfl⟩
  revert hid
  apply hd.induction (P := fun n => n ∈ d.node_ids → ∃ m ∈ d.node_ids, d.parent_ids m = [])
  intro n ih hn
  by_cases hroot : d.parent_ids n = []
  · exact ⟨n, hn, hroot⟩
  · obtain ⟨p, hp⟩ := List.exists_mem_of_ne_nil _ hroot
    exact ih p hp (hd.parent_mem hp)

/-- **Inversion of a start that returns**: no call has failed. -/
theorem World.start_execution_returned
    (h : w.start_execution env workflow_version_id input_payload owner new faults
      = (.ok reply, w')) :
    ∃ session published s₁,
      w.tables.prepare_start env workflow_version_id input_payload owner new
        = .ok (session, published, s₁) ∧
      w'.tables = s₁.set_message_ids new published ∧
      w'.stream = w.stream ++ published.map (new.message workflow_version_id session) := by
  unfold World.start_execution at h
  split at h
  · cases h
  split at h
  · cases h
  rename_i session published s₁ hok
  split at h
  · cases h
  · cases h
  by_cases hnone : ∃ n ∈ published, new.publish n = none
  · have hstop := publish_loop_stops faults.lost
      (new.message workflow_version_id session) hnone w.stream
    dsimp only at h
    rw [hstop] at h
    cases h
  have hthrough := publish_loop_through faults.lost (new.message workflow_version_id session)
    (fun n hn h => hnone ⟨n, hn, h⟩) w.stream
  dsimp only at h
  rw [hthrough, Bool.not_true, if_neg Bool.false_ne_true] at h
  split at h
  · cases h
  · cases h
  split at h
  · cases h
  · cases h
    exact ⟨session, published, s₁, hok, rfl, rfl⟩

/-- The second commit writes message ids into rows of the new execution. -/
theorem set_message_ids_map (s : Tables) (new : NewExecution) (published : List String) :
    ∃ record : NodeExecutionRow → NodeExecutionRow,
      (s.set_message_ids new published).node_executions = s.node_executions.map record ∧
      (s.set_message_ids new published).executions = s.executions ∧
      (∀ row, ∃ id, record row = { row with redis_message_id := id }) ∧
      ∀ row, row.execution_id ≠ new.execution_id → record row = row := by
  refine ⟨_, rfl, rfl, ?_, ?_⟩
  · intro row
    split
    · split
      · exact ⟨_, rfl⟩
      · exact ⟨row.redis_message_id, rfl⟩
    · exact ⟨row.redis_message_id, rfl⟩
  · intro row hrow
    exact if_neg fun h => hrow h.1

/-- The row that the first commit inserts for a node. -/
def NewExecution.row (new : NewExecution) (session : Session) (n : String) : NodeExecutionRow :=
  { session.nodes.row n with
    id := new.node_pk n, execution_id := new.execution_id, node_id := n }

/-- The rows of the first commit. -/
theorem insert_execution_rows {s s₁ : Tables} {session : Session}
    (h : s.insert_execution new session.inserted = some s₁) :
    new.execution_id ∉ s.executions.map ExecutionRow.id ∧
      s₁.executions = s.executions ++ [{ session.execution with id := new.execution_id }] ∧
      s₁.node_executions = s.node_executions ++ session.nodes.keys.map (new.row session) := by
  unfold Tables.insert_execution at h
  dsimp only at h
  split at h
  · rename_i hfree
    simp only [Bool.and_eq_true] at hfree
    cases h
    exact ⟨insertable_singleton hfree.1.1, rfl, rfl⟩
  · cases h

/-- **The rows that a start leaves when it returns.** The nodes that were there belong to
other executions, so the second commit does not reach them. The rows of the nodes are
given as a function of the id, since the second commit changes the message ids of some of
them. -/
theorem start_execution_rows
    (hforeign : ∀ row ∈ w.tables.node_executions,
      row.execution_id ∈ w.tables.executions.map ExecutionRow.id)
    (hversion : w.tables.StartsVersion env workflow_version_id owner d)
    (h : w.start_execution env workflow_version_id input_payload owner new faults
      = (.ok reply, w')) :
    WellFormed d ∧
    (∃ row : ExecutionRow, w'.tables.executions = w.tables.executions ++ [row] ∧
      row.id = new.execution_id ∧ row.status = .RUNNING) ∧
    ∃ row_of : String → NodeExecutionRow,
      w'.tables.node_executions = w.tables.node_executions ++ d.node_ids.map row_of ∧
      w'.stream = w.stream ++ (d.node_ids.filter fun n => decide (d.parent_ids n = [])).map
        (fun n => start_message workflow_version_id (row_of n)) ∧
      ∀ n, (row_of n).node_id = n ∧ (row_of n).execution_id = new.execution_id ∧
        (n ∈ d.node_ids → d.parent_ids n = [] →
          (row_of n).status = .QUEUED ∧ (row_of n).attempt = 1) ∧
        (d.parent_ids n ≠ [] → (row_of n).status = .PENDING ∧ (row_of n).attempt = 0) := by
  obtain ⟨session, published, s₁, hok, htables, hstream⟩ := World.start_execution_returned h
  obtain ⟨d', found, hversion', rfl, hstart, hinsert⟩ := prepare_start_ok hok
  obtain rfl := hversion.unique hversion'
  obtain ⟨version, hfound, ⟨validation, hvalid⟩, -, hkeys, hrunning, -, -, -, -, -, hpubs,
    hqueued, hpending⟩ := start_execution_spec hstart
  cases hfound
  obtain ⟨hnew, hexecutions, hnodes⟩ := insert_execution_rows hinsert
  obtain ⟨record, hrecord, hsame, hfields, hold⟩ := set_message_ids_map s₁ new published
  have hmem : ∀ n, n ∈ published ↔
      n ∈ found.definition.node_ids ∧ found.definition.parent_ids n = [] := by
    intro n
    rw [hpubs, List.mem_filter, decide_eq_true_eq]
  -- the second commit does not reach the rows of other executions
  have hkeep : w.tables.node_executions.map record = w.tables.node_executions := by
    rw [List.map_congr_left (g := id), List.map_id]
    intro row hrow
    apply hold
    intro heq
    exact hnew (heq ▸ hforeign row hrow)
  have hroot : ∀ n ∈ published, (session.nodes.row n).status = .QUEUED ∧
      (session.nodes.row n).attempt = 1 := by
    intro n hn
    rw [hqueued n hn]
    simp
  refine ⟨(validate_workflow_spec hvalid).1,
    ⟨{ session.execution with id := new.execution_id }, ?_, rfl, hrunning⟩,
    fun n => record (new.row session n), ?_, ?_, ?_⟩
  · rw [htables, hsame, hexecutions]
  · rw [htables, hrecord, hnodes, List.map_append, hkeep, List.map_map, hkeys]
    rfl
  · -- a message has what the row had when it was published
    rw [hstream, hpubs]
    congr 1
    refine List.map_congr_left fun n hn => ?_
    obtain ⟨id, hid⟩ := hfields (new.row session n)
    rw [← hpubs] at hn
    dsimp only
    rw [hid]
    simp only [NewExecution.message, start_message, NewExecution.row, (hroot n hn).2]
  · intro n
    obtain ⟨id, hid⟩ := hfields (new.row session n)
    dsimp only
    rw [hid]
    refine ⟨rfl, rfl, fun hn hnil => hroot n ((hmem n).mpr ⟨hn, hnil⟩), fun hnil => ?_⟩
    have hn : n ∉ published := fun h => hnil ((hmem n).mp h).2
    dsimp only [NewExecution.row]
    rw [hpending n hn]
    simp

end FullyStarted

/-- **When starting an accepted workflow starts something.** A start that returns, in a
database whose nodes belong to stored executions, has done all of `FullyStarted` if and
only if the definition has a node. A definition that was accepted has no cycle, so if it
has a node it has one without parents, and this one is QUEUED and published. The statement
asks for a start that has returned, so there are no faults to consider. -/
theorem start_starts_iff (env : ServiceEnv) (w w' : World) (workflow_version_id owner : ℕ)
    (input_payload : JsonObject) (new : NewExecution) (faults : Faults)
    {d : WorkflowDefinition} {reply : Option ExecutionDTO}
    (hforeign : ∀ row ∈ w.tables.node_executions,
      row.execution_id ∈ w.tables.executions.map ExecutionRow.id)
    (hversion : w.tables.StartsVersion env workflow_version_id owner d)
    (h : w.start_execution env workflow_version_id input_payload owner new faults
      = (.ok reply, w')) :
    (∃ rows, FullyStarted d workflow_version_id new w w' rows) ↔ d.nodes ≠ [] := by
  constructor
  · rintro ⟨rows, hstarted⟩ hempty
    -- without a node there is no row that could be QUEUED
    obtain ⟨row, hrow, -⟩ := hstarted.progress
    have hmem := List.mem_map_of_mem (f := NodeExecutionRow.node_id) hrow
    rw [hstarted.one_per_node, WorkflowDefinition.node_ids, hempty] at hmem
    cases hmem
  · intro hne
    obtain ⟨hwf, hexecution, row_of, hcreated, hstream, hrow⟩ :=
      start_execution_rows hforeign hversion h
    have hstatus : ∀ n ∈ d.node_ids, ((row_of n).status = .QUEUED ↔ d.parent_ids n = []) := by
      intro n hn
      by_cases hnil : d.parent_ids n = []
      · exact iff_of_true ((hrow n).2.2.1 hn hnil).1 hnil
      · refine iff_of_false ?_ hnil
        rw [((hrow n).2.2.2 hnil).1]
        simp
    refine ⟨d.node_ids.map row_of, hexecution, hcreated, ?_, ?_, hwf.nodup, ?_, ?_, ?_, ?_⟩
    · intro row hr
      obtain ⟨n, -, rfl⟩ := List.mem_map.mp hr
      exact (hrow n).2.1
    · rw [List.map_map]
      conv_rhs => rw [← List.map_id d.node_ids]
      exact List.map_congr_left fun n _ => (hrow n).1
    · intro row hr hnil
      obtain ⟨n, hn, rfl⟩ := List.mem_map.mp hr
      rw [(hrow n).1] at hnil
      exact (hrow n).2.2.1 hn hnil
    · intro row hr hnil
      obtain ⟨n, hn, rfl⟩ := List.mem_map.mp hr
      rw [(hrow n).1] at hnil
      exact (hrow n).2.2.2 hnil
    · -- the messages are those of the rows that are QUEUED
      have hfilter : (d.node_ids.map row_of).filter
          (fun row => decide (row.status = .QUEUED))
          = (d.node_ids.filter fun n => decide (d.parent_ids n = [])).map row_of := by
        rw [List.filter_map]
        congr 1
        refine List.filter_congr fun n hn => ?_
        rw [Function.comp_apply, decide_eq_decide]
        exact hstatus n hn
      rw [hstream, hfilter, List.map_map]
      rfl
    · -- an accepted definition with a node has a root
      obtain ⟨n, hn, hnil⟩ := hwf.exists_root hne
      exact ⟨row_of n, List.mem_map_of_mem hn, (hstatus n hn).mpr hnil⟩

theorem start_starts_twins :
    twins.nodes ≠ [] ∧ ∃ reply w', twin_start (some none) = (.ok reply, w') ∧
      ∃ rows, FullyStarted twins 0 (twin_ids (some none)) (world_of twins) w' rows := by
  refine ⟨by simp [twins], _, _, rfl, ?_⟩
  refine (start_starts_iff any_services (world_of twins) _ 0 1 [] (twin_ids (some none)) {}
    ?_ ?_ rfl).mpr (by simp [twins])
  · intro row hrow
    cases hrow
  · exact ⟨_, _, rfl, rfl, rfl, WorkflowDefinition.model_validate_model_dump _ twins⟩

/-- A definition without nodes. -/
def hollow : WorkflowDefinition where
  name := "hollow"
  nodes := []

/-- **An execution that nobody will ever finish.** The empty definition is
accepted, its start returns, and it leaves an execution RUNNING for which there
is neither a node nor a message. -/
theorem hollow_start_starts_nothing :
    Accepted any_services.registry hollow ∧
    ∃ reply w', (world_of hollow).start_execution any_services 0 [] 1 (twin_ids none) {}
        = (.ok reply, w') ∧
      w'.tables.executions.map (fun row => row.status) = [.RUNNING] ∧
      w'.tables.node_executions.length = 0 ∧ w'.stream = [] ∧
      ¬ ∃ rows, FullyStarted hollow 0 (twin_ids none) (world_of hollow) w' rows := by
  refine ⟨⟨_, rfl⟩, _, _, rfl, rfl, rfl, rfl, ?_⟩
  rintro ⟨rows, hstarted⟩
  obtain ⟨row, hrow, -⟩ := hstarted.progress
  have hmem := List.mem_map_of_mem (f := NodeExecutionRow.node_id) hrow
  rw [hstarted.one_per_node] at hmem
  cases hmem

end EventFlow
