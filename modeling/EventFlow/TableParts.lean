/-
The tables, read one execution at a time.

`Engine.lean` keeps the rows of each execution in a record of its own;
`Tables.lean` keeps the tables as the database has them, with primary keys and
foreign keys, and lets workers write what they like. [`Tables.part`] reads the rows
of one execution off the tables and [`ExecutionRows.part`] says what the engine's
rows are as rows of tables; where the two agree for every execution the tables
hold what the engine has stored ([`Tables.Holds`]). Each way the engine commits is
then one the services or a worker can take on the tables: a start, a manual retry
and a deletion are calls of their services, everything else is a commit of a
worker ([`exists_worker_write`]).

The primary keys of node rows are a function of execution and node id. The times
at which rows were created are left out: the engine does not have them.
-/
import EventFlow.Commands
import EventFlow.Tenants
import EventFlow.JobPayload

set_option autoImplicit false

namespace EventFlow

/-! ## The rows of one execution -/

/-- The columns of a log row that both models have. -/
structure LogColumns where
  node_execution_id : Option ℕ
  level : LogLevel
  event_type : String
  message : String
  log_metadata : Option JsonObject

/-- The columns of a dead letter that both models have. -/
structure JobColumns where
  node_execution_id : ℕ
  redis_message_id : Option ℕ
  reason : String
  attempts : ℕ
  payload : Option JsonObject
  resolved_at : Option ℕ
  resolution_note : Option String

/-- A log row with these columns. -/
def LogColumns.row (columns : LogColumns) (e id now : ℕ) : ExecutionLogRow :=
  { columns with id, execution_id := e, created_at := now }

/-- A dead letter with these columns. -/
def JobColumns.row (columns : JobColumns) (e id now : ℕ) : DeadLetterJobRow :=
  { columns with id, execution_id := e, created_at := now }

/-- The rows of one execution in every table. -/
structure ExecutionPart where
  executions : List ExecutionRow := []
  nodes : List NodeExecutionRow := []
  logs : List LogColumns := []
  jobs : List JobColumns := []

def ExecutionLogRow.columns (row : ExecutionLogRow) : LogColumns where
  node_execution_id := row.node_execution_id
  level := row.level
  event_type := row.event_type
  message := row.message
  log_metadata := row.log_metadata

def DeadLetterJobRow.columns (row : DeadLetterJobRow) : JobColumns where
  node_execution_id := row.node_execution_id
  redis_message_id := row.redis_message_id
  reason := row.reason
  attempts := row.attempts
  payload := row.payload
  resolved_at := row.resolved_at
  resolution_note := row.resolution_note

/-- The rows of execution `e`. -/
def Tables.part (t : Tables) (e : ℕ) : ExecutionPart where
  executions := t.executions.filter fun row => decide (row.id = e)
  nodes := t.node_executions.filter fun row => decide (row.execution_id = e)
  logs := (t.execution_logs.filter fun row => decide (row.execution_id = e)).map
    ExecutionLogRow.columns
  jobs := (t.dead_letter_jobs.filter fun row => decide (row.execution_id = e)).map
    DeadLetterJobRow.columns

section Part

variable (pk : ℕ → String → ℕ) (e : ℕ)

/-- `serialize_job_payload` of the job that a dead letter keeps. -/
def Job.payload (job : Job) : JsonObject :=
  [("execution_id", .str (uuid_str job.execution_id)),
    ("node_execution_id", .str (uuid_str (pk job.execution_id job.node_id))),
    ("workflow_version_id", .str (uuid_str job.workflow_version_id)),
    ("node_id", .str job.node_id),
    ("attempt", .str (toString job.attempt))]

def ExecutionLog.columns (log : ExecutionLog) : LogColumns where
  node_execution_id := log.node_id.map (pk e)
  level := log.level
  event_type := log.event_type
  message := log.message
  log_metadata := log.metadata

def DeadLetterJob.columns (job : DeadLetterJob) : JobColumns where
  node_execution_id := pk e job.node_id
  redis_message_id := job.redis_message_id
  reason := job.reason
  attempts := job.attempts
  payload := some (job.payload.payload pk)
  resolved_at := job.resolved_at
  resolution_note := job.resolution_note

/-- The row of a node. -/
def ExecutionRows.node_row (rows : ExecutionRows) (n : String) : NodeExecutionRow :=
  { rows.nodes.row n with id := pk e n, execution_id := e, node_id := n }

/-- The engine's rows of an execution, as rows of tables. -/
def ExecutionRows.part (rows : ExecutionRows) : ExecutionPart where
  executions := [{ rows.execution with id := e }]
  nodes := rows.nodes.keys.map (rows.node_row pk e)
  logs := rows.logs.map (ExecutionLog.columns pk e)
  jobs := rows.dead_letter_jobs.map (DeadLetterJob.columns pk e)

/-- The same, of an execution that may not be there. -/
def stored_part : Option ExecutionRows → ExecutionPart
  | none => {}
  | some rows => rows.part pk e

end Part

/-- The tables hold what the engine has stored. -/
def Tables.Holds (t : Tables) (pk : ℕ → String → ℕ) (stored : ℕ → Option ExecutionRows) : Prop :=
  ∀ e, t.part e = stored_part pk e (stored e)

/-- The versions that the engine looks up are those of the tables. -/
def Tables.engine_env (t : Tables) (env : ServiceEnv) : Env where
  registry := env.registry
  versions := fun workflow_version_id =>
    match t.workflow_versions.find? fun v => decide (v.id = workflow_version_id) with
    | none => none
    | some version =>
      match t.workflows.find? fun w => decide (w.id = version.workflow_id) with
      | none => none
      | some workflow =>
        match WorkflowDefinition.model_validate env.pydantic version.definition with
        | .error _ => none
        | .ok definition =>
          some {
            workflow_id := workflow.id
            owner_api_key_id := workflow.owner_api_key_id
            definition }

/-! ## What a commit does to the parts -/

section Commits

variable {t t' : Tables} {pk : ℕ → String → ℕ} {e : ℕ} {rows rows' : ExecutionRows}

/-- Ids for any number of new rows. -/
theorem exists_new_ids (stored : List ℕ) :
    ∃ id : ℕ → ℕ, ∀ n, insertable stored ((List.range n).map id) = true := by
  have hbound : ∃ bound, ∀ id ∈ stored, id < bound := by
    induction stored with
    | nil => exact ⟨0, by simp⟩
    | cons id stored ih =>
        obtain ⟨bound, hbound⟩ := ih
        refine ⟨max bound (id + 1), fun x hx => ?_⟩
        rcases List.mem_cons.mp hx with rfl | hx
        · omega
        · exact (hbound x hx).trans_le (le_max_left _ _)
  obtain ⟨bound, hbound⟩ := hbound
  refine ⟨fun i => bound + i, fun n => decide_eq_true ⟨?_, fun id hid hmem => ?_⟩⟩
  · exact List.nodup_range.map fun i j h => by simpa using h
  · obtain ⟨i, -, rfl⟩ := List.mem_map.mp hid
    have := hbound _ hmem
    omega

theorem map_snd_zipIdx {α : Type} (l : List α) (id : ℕ → ℕ) :
    l.zipIdx.map (fun p => id p.2) = (List.range l.length).map id := by
  rw [List.range_eq_range', ← List.zipIdx_map_snd 0 l, List.map_map]
  rfl

/-- What a transaction of a worker makes of the rows of an execution. -/
structure ExecutionRows.Extends (rows rows' : ExecutionRows) : Prop where
  workflow_id : rows'.execution.workflow_id = rows.execution.workflow_id
  version : rows'.execution.workflow_version_id = rows.execution.workflow_version_id
  input : rows'.execution.input_payload = rows.execution.input_payload
  keys : rows'.nodes.keys = rows.nodes.keys
  logs : ∃ logs, rows'.logs = rows.logs ++ logs ∧
    ∀ log ∈ logs, ∀ n ∈ log.node_id, n ∈ rows.nodes.keys
  jobs : ∃ jobs, rows'.dead_letter_jobs = rows.dead_letter_jobs ++ jobs ∧
    ∀ job ∈ jobs, job.node_id ∈ rows.nodes.keys

/-- The row of the execution that a worker writes. -/
def WorkerWrite.execution_row (w : WorkerWrite) (row : ExecutionRow) : ExecutionRow :=
  { row with status := (w.execution row).1, started_at := (w.execution row).2.1
             finished_at := (w.execution row).2.2 }

/-- The row of a node that a worker writes. -/
def WorkerWrite.node_row (w : WorkerWrite) (row : NodeExecutionRow) : NodeExecutionRow :=
  { row with toNodeExecution := w.node row }

/-- **A worker writes to one part**, and to no workflow. It loads the rows of one
execution and writes them back by primary key, and it inserts rows with the id of this
execution; so in the other parts nothing is found to be changed. -/
theorem worker_write_part {w : WorkerWrite} (h : t.worker_write w = some t') :
    t'.part w.execution_id =
        { executions := (t.part w.execution_id).executions.map w.execution_row
          nodes := (t.part w.execution_id).nodes.map w.node_row
          logs := (t.part w.execution_id).logs ++ w.logs.map ExecutionLogRow.columns
          jobs := (t.part w.execution_id).jobs ++ w.jobs.map DeadLetterJobRow.columns } ∧
      (∀ e, e ≠ w.execution_id → t'.part e = t.part e) ∧
      t'.workflows = t.workflows ∧ t'.workflow_versions = t.workflow_versions := by
  unfold Tables.worker_write at h
  dsimp only at h
  split at h
  · rename_i hnew
    obtain ⟨hlogs, hjobs, -, -⟩ := hnew
    cases h
    have hlogs : ∀ log ∈ w.logs, log.execution_id = w.execution_id :=
      fun log hlog => (hlogs log hlog).1
    have hjobs : ∀ job ∈ w.jobs, job.execution_id = w.execution_id :=
      fun job hjob => (hjobs job hjob).1
    refine ⟨?_, fun e he => ?_, rfl, rfl⟩
    · have hexecutions := @Selection.filter_key_update_self _ _ t.executions _ ExecutionRow.id
        w.execution_id w.execution_row fun _ h => h
      have hnodes := @Selection.filter_key_update_self _ _ t.node_executions _
        NodeExecutionRow.execution_id w.execution_id w.node_row fun _ h => h
      unfold Tables.part
      rw [Selection.filter_key_append_self ExecutionLogRow.execution_id hlogs,
        Selection.filter_key_append_self DeadLetterJobRow.execution_id hjobs, List.map_append,
        List.map_append, ← hexecutions, ← hnodes]
      rfl
    · have hexecutions := @Selection.filter_key_update _ _ t.executions _ ExecutionRow.id
        w.execution_id e w.execution_row (fun _ h => h) he
      have hnodes := @Selection.filter_key_update _ _ t.node_executions _
        NodeExecutionRow.execution_id w.execution_id e w.node_row (fun _ h => h) he
      unfold Tables.part
      rw [Selection.filter_key_append ExecutionLogRow.execution_id hlogs he,
        Selection.filter_key_append DeadLetterJobRow.execution_id hjobs he, ← hexecutions,
        ← hnodes]
      rfl
  · cases h

/-- **A worker can write it.** The write is built from the rows to be reached: it sets the
columns of each row by its node id, and it inserts the logs and dead letters that have
been added, under primary keys that are not in use. What has to be checked is that these
name nodes the worker has loaded, and `Extends` says they do. -/
theorem exists_worker_write (hpart : t.part e = rows.part pk e) (hext : rows.Extends rows') :
    ∃ w t', t.worker_write w = some t' ∧ t'.part e = rows'.part pk e ∧
      (∀ e', e' ≠ e → t'.part e' = t.part e') ∧ t'.workflows = t.workflows ∧
      t'.workflow_versions = t.workflow_versions := by
  obtain ⟨logs, hlogs, hlog_node⟩ := hext.logs
  obtain ⟨jobs, hjobs, hjob_node⟩ := hext.jobs
  obtain ⟨log_pk, hlog_pk⟩ := exists_new_ids (t.execution_logs.map ExecutionLogRow.id)
  obtain ⟨job_pk, hjob_pk⟩ := exists_new_ids (t.dead_letter_jobs.map DeadLetterJobRow.id)
  -- what the worker writes, read off the rows to be reached
  obtain ⟨w, hw⟩ : ∃ w : WorkerWrite, w =
    { execution_id := e
      execution := fun _ => (rows'.execution.status, rows'.execution.started_at,
        rows'.execution.finished_at)
      node := fun row => rows'.nodes.row row.node_id
      logs := logs.zipIdx.map fun p => (ExecutionLog.columns pk e p.1).row e (log_pk p.2) 0
      jobs := jobs.zipIdx.map fun p => (DeadLetterJob.columns pk e p.1).row e (job_pk p.2) 0 } :=
    ⟨_, rfl⟩
  have hnode_ids : (t.node_executions.filter fun row => decide (row.execution_id = e)).map
      NodeExecutionRow.id = rows.nodes.keys.map (pk e) := by
    have hnodes : (t.part e).nodes.map NodeExecutionRow.id = rows.nodes.keys.map (pk e) := by
      rw [hpart]
      exact List.map_map
    exact hnodes
  have hlog_columns : w.logs.map ExecutionLogRow.columns
      = logs.map (ExecutionLog.columns pk e) := by
    conv_rhs => rw [← List.zipIdx_map_fst 0 logs]
    rw [hw, List.map_map, List.map_map]
    rfl
  have hjob_columns : w.jobs.map DeadLetterJobRow.columns
      = jobs.map (DeadLetterJob.columns pk e) := by
    conv_rhs => rw [← List.zipIdx_map_fst 0 jobs]
    rw [hw, List.map_map, List.map_map]
    rfl
  -- the logs and dead letters name loaded nodes, under new ids
  obtain ⟨t', hwrite⟩ : ∃ t', t.worker_write w = some t' := by
    rw [hw]
    refine ⟨_, if_pos ⟨fun log hlog => ?_, fun job hjob => ?_, ?_, ?_⟩⟩
    · obtain ⟨⟨log₀, i⟩, hmem, rfl⟩ := List.mem_map.mp hlog
      refine ⟨rfl, fun id hid => ?_⟩
      obtain ⟨n, hn, rfl⟩ := Option.map_eq_some_iff.mp hid
      rw [hnode_ids]
      exact List.mem_map_of_mem (hlog_node log₀ (List.fst_mem_of_mem_zipIdx hmem) n hn)
    · obtain ⟨⟨job₀, i⟩, hmem, rfl⟩ := List.mem_map.mp hjob
      refine ⟨rfl, ?_⟩
      rw [hnode_ids]
      exact List.mem_map_of_mem (hjob_node job₀ (List.fst_mem_of_mem_zipIdx hmem))
    · rw [List.map_map]
      exact (map_snd_zipIdx logs log_pk) ▸ hlog_pk _
    · rw [List.map_map]
      exact (map_snd_zipIdx jobs job_pk) ▸ hjob_pk _
  obtain ⟨hself, hother, hworkflows, hversions⟩ := worker_write_part hwrite
  have he : w.execution_id = e := by rw [hw]
  rw [he] at hself hother
  refine ⟨w, t', hwrite, ?_, hother, hworkflows, hversions⟩
  rw [hself, hpart, hlog_columns, hjob_columns]
  unfold ExecutionRows.part
  simp only [hlogs, hjobs, hext.keys, List.map_append, List.map_map, List.map_cons, List.map_nil,
    ExecutionPart.mk.injEq, and_true]
  rw [hw]
  refine ⟨?_, rfl⟩
  simp only [WorkerWrite.execution_row, ← hext.workflow_id, ← hext.version, ← hext.input]

end Commits

/-! ## Rows of tables that hold what is stored -/

section Holds

variable {t t' : Tables} {pk : ℕ → String → ℕ} {stored : ℕ → Option ExecutionRows} {e : ℕ}

/-- One part is written. -/
theorem Tables.Holds.update (h : t.Holds pk stored) {r : Option ExecutionRows}
    (hself : t'.part e = stored_part pk e r) (hother : ∀ e', e' ≠ e → t'.part e' = t.part e') :
    t'.Holds pk (Function.update stored e r) := by
  intro e'
  by_cases he : e' = e
  · subst he
    rw [Function.update_self, hself]
  · rw [Function.update_of_ne he, hother e' he, h e']

theorem Tables.Holds.part_eq (h : t.Holds pk stored) {rows : ExecutionRows}
    (hrows : stored e = some rows) : t.part e = rows.part pk e := by
  rw [h e, hrows]
  rfl

/-- The row of an execution. -/
theorem Tables.Holds.execution (h : t.Holds pk stored) {rows : ExecutionRows}
    (hrows : stored e = some rows) :
    (t.executions.filter fun row => decide (row.id = e)) = [{ rows.execution with id := e }] :=
  congrArg ExecutionPart.executions (h.part_eq hrows)

theorem Tables.Holds.of_execution (h : t.Holds pk stored) {row : ExecutionRow}
    (hrow : row ∈ t.executions) : ∃ rows, stored row.id = some rows := by
  have hmem : row ∈ (t.part row.id).executions :=
    List.mem_filter.mpr ⟨hrow, decide_eq_true rfl⟩
  rw [h row.id] at hmem
  cases hstored : stored row.id with
  | none =>
      rw [hstored] at hmem
      cases hmem
  | some rows => exact ⟨rows, rfl⟩

theorem Tables.Holds.of_node (h : t.Holds pk stored) {row : NodeExecutionRow}
    (hrow : row ∈ t.node_executions) :
    ∃ rows n, stored row.execution_id = some rows ∧ n ∈ rows.nodes.keys ∧
      row = rows.node_row pk row.execution_id n := by
  have hmem : row ∈ (t.part row.execution_id).nodes :=
    List.mem_filter.mpr ⟨hrow, decide_eq_true rfl⟩
  rw [h row.execution_id] at hmem
  cases hstored : stored row.execution_id with
  | none =>
      rw [hstored] at hmem
      cases hmem
  | some rows =>
      rw [hstored] at hmem
      obtain ⟨n, hn, heq⟩ := List.mem_map.mp hmem
      exact ⟨rows, n, rfl, hn, heq.symm⟩

theorem Tables.Holds.of_job (h : t.Holds pk stored) {row : DeadLetterJobRow}
    (hrow : row ∈ t.dead_letter_jobs) :
    ∃ n, row.node_execution_id = pk row.execution_id n := by
  have hmem : row.columns ∈ (t.part row.execution_id).jobs :=
    List.mem_map_of_mem (List.mem_filter.mpr ⟨hrow, decide_eq_true rfl⟩)
  rw [h row.execution_id] at hmem
  cases hstored : stored row.execution_id with
  | none =>
      rw [hstored] at hmem
      cases hmem
  | some rows =>
      rw [hstored] at hmem
      obtain ⟨job, -, heq⟩ := List.mem_map.mp hmem
      exact ⟨job.node_id, congrArg JobColumns.node_execution_id heq.symm⟩

theorem Tables.Holds.of_log (h : t.Holds pk stored) {row : ExecutionLogRow}
    (hrow : row ∈ t.execution_logs) :
    ∀ id ∈ row.node_execution_id, ∃ n, id = pk row.execution_id n := by
  intro id hid
  have hmem : row.columns ∈ (t.part row.execution_id).logs :=
    List.mem_map_of_mem (List.mem_filter.mpr ⟨hrow, decide_eq_true rfl⟩)
  rw [h row.execution_id] at hmem
  cases hstored : stored row.execution_id with
  | none =>
      rw [hstored] at hmem
      cases hmem
  | some rows =>
      rw [hstored] at hmem
      obtain ⟨log, -, heq⟩ := List.mem_map.mp hmem
      have hnode : log.node_id.map (pk row.execution_id) = some id :=
        (congrArg LogColumns.node_execution_id heq).trans hid
      obtain ⟨n, -, hn⟩ := Option.map_eq_some_iff.mp hnode
      exact ⟨n, hn.symm⟩

/-- The caller has the execution if the workflow is the caller's. -/
theorem Tables.Holds.find_execution (h : t.Holds pk stored) {rows : ExecutionRows}
    (hrows : stored e = some rows) {owner : ℕ} :
    t.find_execution owner e = if t.owns_workflow owner rows.execution.workflow_id then
      some { rows.execution with id := e } else none := by
  unfold Tables.find_execution
  have hfind := congrArg (List.find? fun row => t.owns_workflow owner row.workflow_id)
    (h.execution hrows)
  rw [List.find?_filter] at hfind
  simp only [Bool.decide_and, Bool.decide_eq_true, decide_eq_true_eq] at hfind
  rw [hfind]
  exact List.find?_singleton

end Holds

/-! ## Starting -/

section Start

variable {t : Tables} {pk : ℕ → String → ℕ} {stored : ℕ → Option ExecutionRows} {e : ℕ}
  {senv : ServiceEnv}

/-- `start_execution` looks up one version. -/
theorem start_execution_congr {env env' : Env} {vid owner now : ℕ} {input : Option JsonObject}
    (hregistry : env'.registry = env.registry) (hversion : env'.versions vid = env.versions vid) :
    start_execution env' vid input owner e now = start_execution env vid input owner e now := by
  unfold start_execution
  rw [hregistry, hversion]

/-- Where the versions of the engine are. -/
theorem engine_env_versions {vid : ℕ} {found : WorkflowVersion}
    (h : (t.engine_env senv).versions vid = some found) :
    ∃ version workflow,
      (t.workflow_versions.find? fun v => decide (v.id = vid)) = some version ∧
      (t.workflows.find? fun w => decide (w.id = version.workflow_id)) = some workflow ∧
      WorkflowDefinition.model_validate senv.pydantic version.definition = .ok found.definition ∧
      found.workflow_id = workflow.id ∧ found.owner_api_key_id = workflow.owner_api_key_id := by
  simp only [Tables.engine_env] at h
  split at h
  · cases h
  rename_i version hversion
  split at h
  · cases h
  rename_i workflow hworkflow
  split at h
  · cases h
  rename_i d hd
  cases h
  exact ⟨version, workflow, hversion, hworkflow, hd, rfl, rfl⟩

/-- Publishing fails at once, and the second commit is left to a worker's write. -/
theorem set_message_ids_none (t : Tables) {new : NewExecution}
    (hpublish : ∀ n, new.publish n = none) (published : List String) :
    t.set_message_ids new published = t := by
  unfold Tables.set_message_ids
  simp only [hpublish, ite_self, List.map_id']

/-- Rows of one execution are added. -/
theorem part_append {executions : List ExecutionRow} {nodes : List NodeExecutionRow}
    {logs : List ExecutionLogRow} {t' : Tables} (hexecutions : ∀ row ∈ executions, row.id = e)
    (hnodes : ∀ row ∈ nodes, row.execution_id = e) (hlogs : ∀ row ∈ logs, row.execution_id = e)
    (ht' : t' = { t with
      executions := t.executions ++ executions
      node_executions := t.node_executions ++ nodes
      execution_logs := t.execution_logs ++ logs }) :
    t'.part e =
        { executions := (t.part e).executions ++ executions
          nodes := (t.part e).nodes ++ nodes
          logs := (t.part e).logs ++ logs.map ExecutionLogRow.columns
          jobs := (t.part e).jobs } ∧
      ∀ e', e' ≠ e → t'.part e' = t.part e' := by
  subst ht'
  refine ⟨?_, fun e' he' => ?_⟩
  · unfold Tables.part
    rw [Selection.filter_key_append_self ExecutionRow.id hexecutions,
      Selection.filter_key_append_self NodeExecutionRow.execution_id hnodes,
      Selection.filter_key_append_self ExecutionLogRow.execution_id hlogs, List.map_append]
  · unfold Tables.part
    rw [Selection.filter_key_append ExecutionRow.id hexecutions he',
      Selection.filter_key_append NodeExecutionRow.execution_id hnodes he',
      Selection.filter_key_append ExecutionLogRow.execution_id hlogs he']

/-- **The rows that a start inserts.** Before, there was no row with this execution id, so
the part consists of what is inserted. -/
theorem insert_execution_part {new : NewExecution} {rows : ExecutionRows} {t' : Tables}
    (h : t.insert_execution new rows = some t') (hid : new.execution_id = e)
    (hpk : new.node_pk = pk e) (hnew : t.part e = {}) (hjobs : rows.dead_letter_jobs = []) :
    t'.part e = rows.part pk e ∧ (∀ e', e' ≠ e → t'.part e' = t.part e') ∧
      t'.workflows = t.workflows ∧ t'.workflow_versions = t.workflow_versions := by
  unfold Tables.insert_execution at h
  dsimp only at h
  split at h
  · rw [hpk, hid] at h
    cases h
    obtain ⟨hself, hother⟩ := @part_append t e [{ rows.execution with id := e }]
      (rows.nodes.keys.map (rows.node_row pk e)) (rows.logs.zipIdx.map fun p =>
        (ExecutionLog.columns pk e p.1).row e (new.log_pk p.2) new.now) _
      (fun row hrow => by rw [List.mem_singleton.mp hrow])
      (fun row hrow => by obtain ⟨n, -, rfl⟩ := List.mem_map.mp hrow; rfl)
      (fun row hrow => by obtain ⟨p, -, rfl⟩ := List.mem_map.mp hrow; rfl) rfl
    have hlogs : ((rows.logs.zipIdx.map fun p =>
        (ExecutionLog.columns pk e p.1).row e (new.log_pk p.2) new.now).map
          ExecutionLogRow.columns) = rows.logs.map (ExecutionLog.columns pk e) := by
      conv_rhs => rw [← List.zipIdx_map_fst 0 rows.logs]
      rw [List.map_map, List.map_map]
      rfl
    refine ⟨hself.trans ?_, hother, rfl, rfl⟩
    rw [hnew, hlogs]
    unfold ExecutionRows.part
    rw [hjobs]
    rfl
  · cases h

/-- The ids that a start needs are there. -/
theorem Tables.Holds.exists_new (h : t.Holds pk stored) (hpk : Function.Injective2 pk)
    (hnew : stored e = none) {keys : List String} (hkeys : keys.Nodup) (now : ℕ) :
    ∃ new : NewExecution, new.execution_id = e ∧ new.node_pk = pk e ∧ new.now = now ∧
      (∀ n, new.publish n = none) ∧
      insertable (t.executions.map ExecutionRow.id) [new.execution_id] = true ∧
      insertable (t.node_executions.map NodeExecutionRow.id) (keys.map new.node_pk) = true ∧
      insertable (t.execution_logs.map ExecutionLogRow.id) [new.log_pk 0] = true := by
  obtain ⟨log_pk, hlog_pk⟩ := exists_new_ids (t.execution_logs.map ExecutionLogRow.id)
  refine ⟨{ execution_id := e, node_pk := pk e, log_pk, now, publish := fun _ => none }, rfl, rfl,
    rfl, fun _ => rfl, decide_eq_true ⟨List.nodup_singleton _, fun id hid hmem => ?_⟩,
    decide_eq_true ⟨?_, fun id hid hmem => ?_⟩, hlog_pk 1⟩
  · obtain ⟨row, hrow, rfl⟩ := List.mem_map.mp hmem
    obtain ⟨rows, hrows⟩ := h.of_execution hrow
    rw [List.mem_singleton.mp hid, hnew] at hrows
    cases hrows
  · exact hkeys.map fun n n' heq => (hpk heq).2
  · -- a node row with this id would be one of `e`
    obtain ⟨n, -, rfl⟩ := List.mem_map.mp hid
    obtain ⟨row, hrow, heq⟩ := List.mem_map.mp hmem
    obtain ⟨rows, m, hrows, -, hnode⟩ := h.of_node hrow
    rw [hnode] at heq
    rw [(hpk heq).1, hnew] at hrows
    cases hrows

/-- **The services start what the engine starts.** Both run `start_execution`, the engine
on the versions it knows and the service on those of its tables, and these are the same
rows. What the service chooses beyond that, primary keys and the new execution id, is
chosen to fit. -/
theorem Tables.Holds.start (h : t.Holds pk stored) (hpk : Function.Injective2 pk)
    {vid owner now : ℕ} {input : JsonObject} {session : Session} {pubs : List String}
    (hnew : stored e = none)
    (hok : EventFlow.start_execution (t.engine_env senv) vid (some input) owner e now
      = .ok (session, pubs)) :
    ∃ c t', t.call senv owner c = t' ∧
      t'.Holds pk (Function.update stored e (some session.inserted)) ∧
      t'.workflows = t.workflows ∧ t'.workflow_versions = t.workflow_versions := by
  obtain ⟨found, hfound, haccepted, -, hkeys, -, -, -, -, hjobs, -⟩ := start_execution_spec hok
  obtain ⟨version, workflow, hversion, hworkflow, hd, hwid, hwowner⟩ := engine_env_versions hfound
  obtain ⟨found', hfound', howner, -⟩ := start_execution_ok_iff.mp ⟨_, _, hok⟩
  obtain rfl : found = found' := Option.some.inj (hfound.symm.trans hfound')
  obtain rfl : workflow.owner_api_key_id = owner := hwowner.symm.trans howner
  obtain ⟨new, hid, hnode_pk, hnow, hpublish, hexecution, hnodes, hlog⟩ :=
    h.exists_new hpk hnew haccepted.wellFormed.nodup now
  have hfound_eq : found = ⟨workflow.id, workflow.owner_api_key_id, found.definition⟩ := by
    rw [← hwid, ← hwowner]
  have hsame : EventFlow.start_execution
      ⟨senv.registry, fun _ => some ⟨workflow.id, workflow.owner_api_key_id, found.definition⟩⟩
      vid (some input) workflow.owner_api_key_id new.execution_id new.now
        = .ok (session, pubs) := by
    rw [hid, hnow, ← hok]
    exact start_execution_congr rfl (hfound_eq ▸ hfound.symm)
  rw [← hkeys] at hnodes
  obtain ⟨t', hinsert⟩ := (@insert_execution_some_iff t new session.inserted
    (start_execution_one_log hok)).mpr ⟨hexecution, hnodes, hlog⟩
  obtain ⟨hself, hother, hworkflows, hversions⟩ := insert_execution_part hinsert hid hnode_pk
    (by rw [h e, hnew]; rfl) hjobs
  refine ⟨.start_execution vid input new, t', ?_, h.update hself hother, hworkflows, hversions⟩
  change (t.start_execution senv vid input workflow.owner_api_key_id new).2 = t'
  unfold Tables.start_execution
  simp only [hversion, hworkflow, ne_eq, not_true_eq_false, if_false, hd, hsame, hinsert]
  split
  · rfl
  · exact set_message_ids_none t' hpublish pubs

end Start

/-! ## Deleting -/

section Delete

variable {t : Tables} {pk : ℕ → String → ℕ} {stored : ℕ → Option ExecutionRows} {e : ℕ}

/-- The nodes of an execution have ids of their own. -/
theorem Tables.Holds.of_node_id (h : t.Holds pk stored) {id : ℕ}
    (hid : id ∈ (t.node_executions.filter fun row => decide (row.execution_id = e)).map
      NodeExecutionRow.id) : ∃ n, id = pk e n := by
  obtain ⟨row, hrow, rfl⟩ := List.mem_map.mp hid
  obtain ⟨hmem, he⟩ := List.mem_filter.mp hrow
  obtain ⟨rows, n, -, -, hnode⟩ := h.of_node hmem
  rw [hnode, ← of_decide_eq_true he]
  exact ⟨n, rfl⟩

/-- Rows of one execution are removed. -/
theorem part_remove {logs : ExecutionLogRow → Bool} {t' : Tables}
    (hself : ∀ row, row.execution_id = e → logs row = false)
    (hother : ∀ row ∈ t.execution_logs, row.execution_id ≠ e → logs row = true)
    (ht' : t' = { t with
      executions := t.executions.filter fun row => decide (row.id ≠ e)
      node_executions := t.node_executions.filter fun row => decide (row.execution_id ≠ e)
      execution_logs := t.execution_logs.filter logs
      dead_letter_jobs := t.dead_letter_jobs.filter fun job => decide (job.execution_id ≠ e) }) :
    t'.part e = {} ∧ ∀ e', e' ≠ e → t'.part e' = t.part e' := by
  subst ht'
  have hkeep : ∀ {k : ℕ}, k ≠ e → decide (k ≠ e) = true := fun h => decide_eq_true h
  have hdrop : ∀ {k : ℕ}, k = e → decide (k ≠ e) = false := fun h => decide_eq_false (· h)
  refine ⟨?_, fun e' he' => ?_⟩
  · unfold Tables.part
    rw [Selection.filter_key_remove_self ExecutionRow.id _ fun _ => hdrop,
      Selection.filter_key_remove_self NodeExecutionRow.execution_id _ fun _ => hdrop,
      Selection.filter_key_remove_self ExecutionLogRow.execution_id _ hself,
      Selection.filter_key_remove_self DeadLetterJobRow.execution_id _ fun _ => hdrop]
    rfl
  · unfold Tables.part
    rw [Selection.filter_key_remove ExecutionRow.id (fun _ _ => hkeep) he',
      Selection.filter_key_remove NodeExecutionRow.execution_id (fun _ _ => hkeep) he',
      Selection.filter_key_remove ExecutionLogRow.execution_id hother he',
      Selection.filter_key_remove DeadLetterJobRow.execution_id (fun _ _ => hkeep) he']

/-- **The services delete what the engine deletes.** The service deletes by execution id,
and logs also by the nodes they name; a dead letter of another execution that names one of
the nodes would stop it. The key of a node tells its execution, so there is no such dead
letter and no such log. -/
theorem Tables.Holds.delete (h : t.Holds pk stored) (hpk : Function.Injective2 pk)
    {rows : ExecutionRows} {owner : ℕ} (hrows : stored e = some rows)
    (howns : t.owns_workflow owner rows.execution.workflow_id = true) :
    (t.delete_execution e owner).2.Holds pk (Function.update stored e none) ∧
      (t.delete_execution e owner).2.workflows = t.workflows ∧
      (t.delete_execution e owner).2.workflow_versions = t.workflow_versions := by
  have hfree : (t.dead_letter_jobs.any fun job => decide (job.execution_id ≠ e ∧
      job.node_execution_id ∈ (t.node_executions.filter fun row =>
        decide (row.execution_id = e)).map NodeExecutionRow.id)) = false := by
    rw [List.any_eq_false]
    intro job hjob hbad
    obtain ⟨hne, hnode⟩ := of_decide_eq_true hbad
    obtain ⟨n, hn⟩ := h.of_job hjob
    obtain ⟨m, hm⟩ := h.of_node_id hnode
    exact hne (hpk (hn.symm.trans hm)).1
  unfold Tables.delete_execution
  rw [h.find_execution hrows, if_pos howns]
  dsimp only
  rw [hfree, if_neg Bool.false_ne_true]
  refine ⟨?_, rfl, rfl⟩
  have hlog : ∀ row ∈ t.execution_logs, row.execution_id ≠ e →
      decide (row.execution_id ≠ e ∧ ∀ n ∈ row.node_execution_id,
        n ∉ (t.node_executions.filter fun row => decide (row.execution_id = e)).map
          NodeExecutionRow.id) = true := by
    refine fun row hrow hne => decide_eq_true ⟨hne, fun id hid hnode => ?_⟩
    obtain ⟨n, hn⟩ := h.of_log hrow id hid
    obtain ⟨m, hm⟩ := h.of_node_id hnode
    exact hne (hpk (hn.symm.trans hm)).1
  obtain ⟨hself, hother⟩ := part_remove
    (fun row he => decide_eq_false fun hne => hne.1 he) hlog rfl
  exact h.update hself hother

end Delete

/-! ## Retrying -/

section Retry

variable {t : Tables} {pk : ℕ → String → ℕ} {stored : ℕ → Option ExecutionRows} {e : ℕ}
  {rows : ExecutionRows} {n : String} {owner now : ℕ}

/-- `retry_node` finds the row of the node. -/
theorem Tables.Holds.find_node (h : t.Holds pk stored) (hrows : stored e = some rows)
    (howns : t.owns_workflow owner rows.execution.workflow_id = true)
    (hkey : n ∈ rows.nodes.keys) :
    (t.node_executions.find? fun row =>
        decide (row.execution_id = e ∧ row.node_id = n) && t.owns_execution owner row.execution_id)
      = some (rows.node_row pk e n) := by
  have hnodes : (t.node_executions.filter fun row => decide (row.execution_id = e))
      = rows.nodes.keys.map (rows.node_row pk e) :=
    congrArg ExecutionPart.nodes (h.part_eq hrows)
  have hfilter : (t.node_executions.find? fun row =>
      decide (row.execution_id = e ∧ row.node_id = n))
      = (rows.nodes.keys.map (rows.node_row pk e)).find? fun row => decide (row.node_id = n) := by
    rw [← hnodes, List.find?_filter]
    simp only [Bool.decide_and, decide_eq_true_eq]
  rw [find_owned_node, h.find_execution hrows, if_pos howns, Option.bind_some, hfilter,
    List.find?_map]
  cases hfind : rows.nodes.keys.find? ((fun row => decide (row.node_id = n)) ∘
      rows.node_row pk e) with
  | none => exact absurd (decide_eq_true rfl) (List.find?_eq_none.mp hfind n hkey)
  | some m =>
      have hm : m = n := of_decide_eq_true (List.find?_some hfind :)
      rw [hm]
      rfl

/-- The dead letters of a node are among those of its execution. -/
theorem Tables.Holds.execution_of_job (h : t.Holds pk stored) (hpk : Function.Injective2 pk)
    {job : DeadLetterJobRow} (hjob : job ∈ t.dead_letter_jobs)
    (hnode : job.node_execution_id = pk e n) : job.execution_id = e := by
  obtain ⟨m, hm⟩ := h.of_job hjob
  exact (hpk (hm.symm.trans hnode)).1

/-- The unresolved dead letters of a node. The service counts them by the primary key of
the node, the engine by its id within the execution; the key is a function of the two. -/
theorem Tables.Holds.unresolved_length (h : t.Holds pk stored) (hpk : Function.Injective2 pk)
    (hrows : stored e = some rows) :
    (t.dead_letter_jobs.filter fun job =>
        decide (job.node_execution_id = pk e n ∧ job.resolved_at = none)).length
      = (unresolved rows.dead_letter_jobs n).length := by
  have hjobs : (t.dead_letter_jobs.filter fun row => decide (row.execution_id = e)).map
      DeadLetterJobRow.columns = rows.dead_letter_jobs.map (DeadLetterJob.columns pk e) :=
    congrArg ExecutionPart.jobs (h.part_eq hrows)
  have hopen := congrArg (fun l => (l.filter fun c : JobColumns =>
    decide (c.node_execution_id = pk e n ∧ c.resolved_at = none)).length) hjobs
  simp only [List.filter_map, List.length_map, List.filter_filter] at hopen
  have hleft : (t.dead_letter_jobs.filter fun job =>
      decide (job.node_execution_id = pk e n ∧ job.resolved_at = none))
      = t.dead_letter_jobs.filter fun job =>
        decide (job.columns.node_execution_id = pk e n ∧ job.columns.resolved_at = none) &&
          decide (job.execution_id = e) := by
    refine List.filter_congr fun job hjob => ?_
    by_cases hnode : job.node_execution_id = pk e n
    · rw [decide_eq_true (h.execution_of_job hpk hjob hnode), Bool.and_true]
      rfl
    · rw [decide_eq_false fun hboth => hnode hboth.1, decide_eq_false fun hboth => hnode hboth.1,
        Bool.false_and]
  have hright : (rows.dead_letter_jobs.filter fun job =>
      decide ((job.columns pk e).node_execution_id = pk e n ∧
        (job.columns pk e).resolved_at = none))
      = unresolved rows.dead_letter_jobs n := by
    refine List.filter_congr fun job _ => decide_eq_decide.mpr ?_
    exact and_congr_left fun _ => ⟨fun heq => (hpk heq).2, fun heq => congrArg (pk e) heq⟩
  rw [hleft, ← hright]
  exact hopen

/-- What a retry makes of a dead letter. -/
def DeadLetterJobRow.resolve (row : DeadLetterJobRow) (id now : ℕ) : DeadLetterJobRow :=
  if row.node_execution_id = id ∧ row.resolved_at = none then
    { row with resolved_at := some now, resolution_note := some "Manually retried via API" }
  else row

/-- What that is for the columns. -/
def JobColumns.resolve (columns : JobColumns) (id now : ℕ) : JobColumns :=
  if columns.node_execution_id = id ∧ columns.resolved_at = none then
    { columns with resolved_at := some now
                   resolution_note := some "Manually retried via API" }
  else columns

theorem DeadLetterJobRow.columns_resolve (row : DeadLetterJobRow) (id now : ℕ) :
    (row.resolve id now).columns = row.columns.resolve id now := by
  unfold DeadLetterJobRow.resolve JobColumns.resolve
  by_cases hopen : row.node_execution_id = id ∧ row.resolved_at = none
  · rw [if_pos hopen]
    exact (if_pos hopen).symm
  · rw [if_neg hopen]
    exact (if_neg hopen).symm

theorem DeadLetterJobRow.execution_id_resolve (row : DeadLetterJobRow) (id now : ℕ) :
    (row.resolve id now).execution_id = row.execution_id := by
  unfold DeadLetterJobRow.resolve
  split <;> rfl

/-- `resolve_jobs` as rows of tables. -/
theorem columns_resolve_jobs (hpk : Function.Injective2 pk) (jobs : List DeadLetterJob) :
    (resolve_jobs jobs n now).map (DeadLetterJob.columns pk e)
      = (jobs.map (DeadLetterJob.columns pk e)).map fun c => c.resolve (pk e n) now := by
  unfold resolve_jobs
  rw [List.map_map, List.map_map]
  refine List.map_congr_left fun job _ => ?_
  simp only [Function.comp_apply, JobColumns.resolve]
  by_cases hopen : job.node_id = n ∧ job.resolved_at = none
  · rw [if_pos hopen, if_pos ⟨congrArg (pk e) hopen.1, hopen.2⟩]
    rfl
  · rw [if_neg hopen, if_neg fun hc => hopen ⟨(hpk hc.1).2, hc.2⟩]

/-- **What a retry does to the tables**, in terms of the execution. At most one dead
letter is resolved, since there is at most one that is not resolved yet, and the new
attempt fits its column; with these two the call cannot raise after it has found the node
DEAD_LETTERED. -/
theorem Tables.Holds.retry_node_eq (h : t.Holds pk stored) (hpk : Function.Injective2 pk)
    (hinv : TablesInv t) (hrows : stored e = some rows)
    (howns : t.owns_workflow owner rows.execution.workflow_id = true)
    (hkey : n ∈ rows.nodes.keys) (hst : (rows.nodes.row n).status = .DEAD_LETTERED)
    (hone : (unresolved rows.dead_letter_jobs n).length < 2)
    (hfits : (rows.nodes.row n).attempt + 1 < 2 ^ 31) :
    (t.retry_node e n owner now none).2 = { t with
      node_executions := t.node_executions.map fun row =>
        if row.execution_id = e then
          if row.node_id = n then
            { row with toNodeExecution := (rows.nodes.row n).enter .QUEUED now }
          else row
        else row
      dead_letter_jobs := t.dead_letter_jobs.map fun row =>
        if row.execution_id = e then row.resolve (pk e n) now else row } := by
  have hlength := @Tables.Holds.unresolved_length t pk stored e rows n h hpk hrows
  have hdead : ¬ (rows.node_row pk e n).status ≠ .DEAD_LETTERED := not_not.mpr hst
  have hattempt : ¬ 2 ^ 31 ≤ ((rows.node_row pk e n).enter .QUEUED now).attempt :=
    not_le.mpr hfits
  have htwo : ¬ 2 ≤ (t.dead_letter_jobs.filter fun job =>
      decide (job.node_execution_id = (rows.node_row pk e n).id ∧ job.resolved_at = none)).length :=
    by rw [← hlength] at hone; exact not_le.mpr hone
  unfold Tables.retry_node
  rw [h.find_node hrows howns hkey]
  dsimp only
  rw [if_neg hdead, if_neg hattempt, if_neg htwo]
  refine congrArg₂ (fun nodes jobs => { t with node_executions := nodes, dead_letter_jobs := jobs })
    (List.map_congr_left fun row hrow => ?_) (List.map_congr_left fun job hjob => ?_)
  · -- one row has the id of the node
    obtain ⟨found, m, hfound, -, hrow⟩ := h.of_node hrow
    by_cases hnode : row.execution_id = e ∧ row.node_id = n
    · have hm : m = n := (congrArg NodeExecutionRow.node_id hrow).symm.trans hnode.2
      have hid : row.id = pk e n := by rw [hrow, ← hnode.1, ← hm]; rfl
      rw [hnode.1, hrows, Option.some.injEq] at hfound
      subst hfound
      rw [hnode.1, hm] at hrow
      rw [if_pos hnode.1, if_pos hnode.2, hrow]
      exact if_pos rfl
    · have hid : row.id ≠ (rows.node_row pk e n).id := by
        intro hid
        rw [hrow] at hid
        obtain ⟨he, hm⟩ := hpk hid
        exact hnode ⟨he, (congrArg NodeExecutionRow.node_id hrow).trans hm⟩
      rw [if_neg hid]
      by_cases he : row.execution_id = e
      · rw [if_pos he, if_neg fun hn => hnode ⟨he, hn⟩]
      · rw [if_neg he]
  · by_cases hopen : job.node_execution_id = pk e n ∧ job.resolved_at = none
    · have hmem : job.id ∈ (t.dead_letter_jobs.filter fun job =>
          decide (job.node_execution_id = (rows.node_row pk e n).id ∧
            job.resolved_at = none)).map DeadLetterJobRow.id :=
        List.mem_map_of_mem (List.mem_filter.mpr ⟨hjob, decide_eq_true hopen⟩)
      rw [if_pos hmem, if_pos (h.execution_of_job hpk hjob hopen.1)]
      exact (if_pos hopen).symm
    · have hmem : job.id ∉ (t.dead_letter_jobs.filter fun job =>
          decide (job.node_execution_id = (rows.node_row pk e n).id ∧
            job.resolved_at = none)).map DeadLetterJobRow.id := by
        intro hmem
        obtain ⟨other, hother, hid⟩ := List.mem_map.mp hmem
        obtain ⟨hother, hopen'⟩ := List.mem_filter.mp hother
        rw [Selection.eq_of_key hinv.job_ids hother hjob hid] at hopen'
        exact hopen (of_decide_eq_true hopen')
      have hsame : job.resolve (pk e n) now = job := if_neg hopen
      rw [if_neg hmem, hsame, ite_self]

/-- **The services retry what the engine retries.** One row of the execution changes and
one dead letter of it; both keep their execution id, so every other part is as it was. -/
theorem Tables.Holds.retry (h : t.Holds pk stored) (hpk : Function.Injective2 pk)
    (hinv : TablesInv t) (hrows : stored e = some rows)
    (howns : t.owns_workflow owner rows.execution.workflow_id = true)
    (hkey : n ∈ rows.nodes.keys) (hst : (rows.nodes.row n).status = .DEAD_LETTERED)
    (hone : (unresolved rows.dead_letter_jobs n).length < 2)
    (hfits : (rows.nodes.row n).attempt + 1 < 2 ^ 31) :
    (t.retry_node e n owner now none).2.Holds pk (Function.update stored e (some { rows with
        nodes := rows.nodes.set n ((rows.nodes.row n).enter .QUEUED now)
        dead_letter_jobs := resolve_jobs rows.dead_letter_jobs n now })) ∧
      (t.retry_node e n owner now none).2.workflows = t.workflows ∧
      (t.retry_node e n owner now none).2.workflow_versions = t.workflow_versions := by
  rw [h.retry_node_eq hpk hinv hrows howns hkey hst hone hfits]
  have hkeep : ∀ row : NodeExecutionRow, row.execution_id = e →
      (if row.node_id = n then
        { row with toNodeExecution := (rows.nodes.row n).enter .QUEUED now }
      else row : NodeExecutionRow).execution_id = e := by
    intro row he
    split
    · exact he
    · exact he
  have hresolve : ∀ row : DeadLetterJobRow, row.execution_id = e →
      (row.resolve (pk e n) now).execution_id = e :=
    fun row he => (row.execution_id_resolve _ _).trans he
  refine ⟨h.update ?_ fun e' he' => ?_, rfl, rfl⟩
  · have hpart := h.part_eq hrows
    have hnodes : (t.node_executions.filter fun row => decide (row.execution_id = e))
        = rows.nodes.keys.map (rows.node_row pk e) := congrArg ExecutionPart.nodes hpart
    have hjobs : (t.dead_letter_jobs.filter fun row => decide (row.execution_id = e)).map
        DeadLetterJobRow.columns = rows.dead_letter_jobs.map (DeadLetterJob.columns pk e) :=
      congrArg ExecutionPart.jobs hpart
    unfold Tables.part
    rw [Selection.filter_key_update_self NodeExecutionRow.execution_id hkeep,
      Selection.filter_key_update_self DeadLetterJobRow.execution_id hresolve, hnodes]
    have hnodes' : (rows.nodes.keys.map (rows.node_row pk e)).map (fun row =>
        if row.node_id = n then
          { row with toNodeExecution := (rows.nodes.row n).enter .QUEUED now }
        else row) = rows.nodes.keys.map (ExecutionRows.node_row pk e { rows with
          nodes := rows.nodes.set n ((rows.nodes.row n).enter .QUEUED now) }) := by
      rw [List.map_map]
      refine List.map_congr_left fun m _ => ?_
      by_cases hm : m = n
      · subst hm
        simp only [Function.comp_apply, ExecutionRows.node_row, if_true, Table.row_set_self]
      · simp only [Function.comp_apply, ExecutionRows.node_row, Table.row_set_of_ne _ _ hm]
        exact if_neg hm
    have hjobs' : ((t.dead_letter_jobs.filter fun row => decide (row.execution_id = e)).map
        fun row => row.resolve (pk e n) now).map DeadLetterJobRow.columns
        = (resolve_jobs rows.dead_letter_jobs n now).map (DeadLetterJob.columns pk e) := by
      rw [columns_resolve_jobs hpk, ← hjobs, List.map_map, List.map_map]
      exact List.map_congr_left fun row _ => row.columns_resolve _ _
    rw [hnodes', hjobs']
    exact (ExecutionPart.mk.injEq ..).mpr ⟨congrArg ExecutionPart.executions hpart, rfl,
      congrArg ExecutionPart.logs hpart, rfl⟩
  · unfold Tables.part
    rw [Selection.filter_key_update NodeExecutionRow.execution_id hkeep he',
      Selection.filter_key_update DeadLetterJobRow.execution_id hresolve he']

end Retry

end EventFlow
