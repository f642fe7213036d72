/-
What the methods of `Tables.lean` do to the tables.

A call leaves the tables in one of eight ways ([`CallEffect`], [`call_effect`]):
it changes nothing, or it adds, rewrites or deletes rows below a workflow of the
caller. All that is shown of runs of calls is read off these cases; no proof
after this file unfolds a method that writes.
-/
import EventFlow.Tables

set_option autoImplicit false

namespace EventFlow

/-! ## What a call can do -/

/-- A definition that has passed the validation, as it is stored. -/
def Stored (env : ServiceEnv) (definition : Json) : Prop :=
  ∃ d, Accepted env.registry d ∧ definition = d.model_dump

/-- What a call by `key` leaves of the tables. The methods find a row of the
caller and write by its primary key; what a constructor asks of the rows it
writes is what the method has checked. -/
inductive CallEffect (env : ServiceEnv) (s : Tables) (key : ℕ) : Tables → Prop where
  | unchanged : CallEffect env s key s
  | workflow_added (workflow : WorkflowRow) (version : WorkflowVersionRow)
      (howner : workflow.owner_api_key_id = key)
      (hid : workflow.id ∉ s.workflows.map WorkflowRow.id)
      (hversion : version.workflow_id = workflow.id)
      (hstored : Stored env version.definition) :
      CallEffect env s key
        { s with workflows := s.workflows ++ [workflow]
                 workflow_versions := s.workflow_versions ++ [version] }
  | version_added (version : WorkflowVersionRow) (now : ℕ)
      (howns : s.owns_workflow key version.workflow_id = true)
      (hstored : Stored env version.definition) :
      CallEffect env s key
        { s with
          workflows := s.workflows.map fun w =>
            if w.id = version.workflow_id then { w with updated_at := now } else w
          workflow_versions := s.workflow_versions ++ [version] }
  | workflow_deleted (w : ℕ) (howns : s.owns_workflow key w = true) :
      CallEffect env s key
        { s with
          workflows := s.workflows.filter fun row => decide (row.id ≠ w)
          workflow_versions := s.workflow_versions.filter fun v => decide (v.workflow_id ≠ w) }
  | execution_started (execution : ExecutionRow) (nodes : List NodeExecutionRow)
      (logs : List ExecutionLogRow) (publish : NodeExecutionRow → NodeExecutionRow)
      (howns : s.owns_workflow key execution.workflow_id = true)
      (hid : execution.id ∉ s.executions.map ExecutionRow.id)
      (hpks : insertable (s.node_executions.map NodeExecutionRow.id)
        (nodes.map NodeExecutionRow.id) = true)
      (hnodes : ∀ row ∈ nodes, row.execution_id = execution.id)
      (hlogs : ∀ log ∈ logs, log.execution_id = execution.id ∧ log.node_execution_id = none)
      (hkeys : ∀ row, (publish row).id = row.id ∧ (publish row).execution_id = row.execution_id)
      (hpublish : ∀ row, row.execution_id ≠ execution.id → publish row = row) :
      CallEffect env s key
        { s with
          executions := s.executions ++ [execution]
          node_executions := (s.node_executions ++ nodes).map publish
          execution_logs := s.execution_logs ++ logs }
  | node_retried (row node : NodeExecutionRow) (now : ℕ) (note : String)
      (hrow : row ∈ s.node_executions)
      (howns : s.owns_execution key row.execution_id = true)
      (hkeys : node.id = row.id ∧ node.execution_id = row.execution_id) :
      CallEffect env s key
        { s with
          node_executions := s.node_executions.map fun other =>
            if other.id = node.id then node else other
          dead_letter_jobs := s.dead_letter_jobs.map fun job =>
            if job.id ∈ (s.dead_letter_jobs.filter fun other =>
                decide (other.node_execution_id = row.id ∧ other.resolved_at = none)).map
                  DeadLetterJobRow.id then
              { job with resolved_at := some now, resolution_note := some note }
            else job }
  | execution_deleted (e : ℕ) (howns : s.owns_execution key e = true) :
      CallEffect env s key
        { s with
          executions := s.executions.filter fun row => decide (row.id ≠ e)
          node_executions := s.node_executions.filter fun row => decide (row.execution_id ≠ e)
          execution_logs := s.execution_logs.filter fun row =>
            decide (row.execution_id ≠ e ∧ ∀ n ∈ row.node_execution_id,
              n ∉ (s.node_executions.filter fun row => decide (row.execution_id = e)).map
                NodeExecutionRow.id)
          dead_letter_jobs := s.dead_letter_jobs.filter fun job =>
            decide (job.execution_id ≠ e) }
  | job_resolved (row job : DeadLetterJobRow) (hrow : row ∈ s.dead_letter_jobs)
      (howns : s.owns_execution key row.execution_id = true)
      (hkeys : job.id = row.id ∧ job.execution_id = row.execution_id ∧
        job.node_execution_id = row.node_execution_id) :
      CallEffect env s key
        { s with dead_letter_jobs := s.dead_letter_jobs.map fun other =>
            if other.id = job.id then job else other }

section Effect

variable (env : ServiceEnv) (s : Tables) (key : ℕ)

theorem insertable_singleton {stored : List ℕ} {id : ℕ} (h : insertable stored [id] = true) :
    id ∉ stored := by
  unfold insertable at h
  rw [decide_eq_true_eq] at h
  exact h.2 id List.mem_cons_self

theorem owns_of_find_workflow {w : ℕ} {row : WorkflowRow}
    (h : s.workflows.find? (fun row => decide (row.id = w ∧ row.owner_api_key_id = key))
      = some row) : s.owns_workflow key w = true := by
  have hrow := List.find?_some h
  exact List.any_eq_true.mpr ⟨row, List.mem_of_find?_eq_some h, hrow⟩

theorem owns_of_find_execution {e : ℕ} {row : ExecutionRow}
    (h : s.find_execution key e = some row) : s.owns_execution key e = true := by
  unfold Tables.find_execution at h
  have hrow := List.find?_some h
  exact List.any_eq_true.mpr ⟨row, List.mem_of_find?_eq_some h, hrow⟩

theorem create_workflow_effect (name description : String) (definition : WorkflowDefinition)
    (workflow_id version_id now : ℕ) :
    CallEffect env s key
      (s.create_workflow env name description definition key workflow_id version_id now).2 := by
  unfold Tables.create_workflow
  split
  · exact .unchanged
  · rename_i result hval
    split
    · rename_i hfree
      obtain ⟨hw, -⟩ := Bool.and_eq_true_iff.mp hfree
      exact .workflow_added _ _ rfl (insertable_singleton hw) rfl ⟨definition, ⟨result, hval⟩, rfl⟩
    · exact .unchanged

theorem create_workflow_version_effect (workflow_id : ℕ) (definition : WorkflowDefinition)
    (version_id now : ℕ) :
    CallEffect env s key
      (s.create_workflow_version env workflow_id definition key version_id now).2 := by
  unfold Tables.create_workflow_version
  split
  · exact .unchanged
  · rename_i row hfind
    split
    · exact .unchanged
    · rename_i result hval
      dsimp only
      split
      · exact .version_added
          { id := version_id, workflow_id, version_number := _, definition := definition.model_dump
            checksum := _, created_at := now }
          now (owns_of_find_workflow s key hfind) ⟨definition, ⟨result, hval⟩, rfl⟩
      · exact .unchanged

theorem delete_workflow_effect (workflow_id : ℕ) :
    CallEffect env s key (s.delete_workflow workflow_id key).2 := by
  unfold Tables.delete_workflow
  split
  · exact .unchanged
  · rename_i row hfind
    dsimp only
    split
    · exact .unchanged
    · exact .workflow_deleted workflow_id (owns_of_find_workflow s key hfind)

theorem retry_node_effect (execution_id : ℕ) (node_id : String) (now : ℕ)
    (publish : Option (Option ℕ)) :
    CallEffect env s key (s.retry_node execution_id node_id key now publish).2 := by
  unfold Tables.retry_node
  split
  · exact .unchanged
  · rename_i row hfind
    -- the SELECT joins the node to the caller's workflow
    have hmem := List.mem_of_find?_eq_some hfind
    have hrow := List.find?_some hfind
    obtain ⟨-, howns⟩ := Bool.and_eq_true_iff.mp hrow
    split
    · exact .unchanged
    · dsimp only
      split
      · exact .unchanged
      · split
        · exact .unchanged
        · have hretried := fun node : NodeExecution =>
            @CallEffect.node_retried env s key row { row with toNodeExecution := node } now
              "Manually retried via API" hmem howns ⟨rfl, rfl⟩
          split
          · exact hretried (row.enter .QUEUED now)
          · exact hretried (row.enter .QUEUED now)
          · rename_i message_id
            exact hretried { row.enter .QUEUED now with redis_message_id := some message_id }

/-- The rows of a new execution, and `publish` for the message ids that its nodes
may have got by then. -/
theorem insert_execution_effect {s₁ : Tables} {new : NewExecution} {session : Session}
    (howns : s.owns_workflow key session.execution.workflow_id = true)
    (hlogs : ∀ log ∈ session.new_logs, log.node_id = none)
    (h : s.insert_execution new session.inserted = some s₁)
    {publish : NodeExecutionRow → NodeExecutionRow}
    (hkeys : ∀ row, (publish row).id = row.id ∧ (publish row).execution_id = row.execution_id)
    (hpublish : ∀ row, row.execution_id ≠ new.execution_id → publish row = row) :
    CallEffect env s key { s₁ with node_executions := s₁.node_executions.map publish } := by
  unfold Tables.insert_execution at h
  dsimp only at h
  split at h
  · rename_i hfree
    obtain ⟨hfree, -⟩ := Bool.and_eq_true_iff.mp hfree
    obtain ⟨hid, hpks⟩ := Bool.and_eq_true_iff.mp hfree
    cases h
    refine .execution_started { session.execution with id := new.execution_id } _ _ publish howns
      (insertable_singleton hid) hpks ?_ ?_ hkeys hpublish
    · intro row hrow
      obtain ⟨n, -, rfl⟩ := List.mem_map.mp hrow
      rfl
    · intro row hrow
      obtain ⟨p, hp, rfl⟩ := List.mem_map.mp hrow
      refine ⟨rfl, ?_⟩
      show p.1.node_id.map new.node_pk = none
      rw [hlogs p.1 (List.fst_mem_of_mem_zipIdx hp)]
      rfl
  · cases h

/-- A start either stops at a check, and then nothing has been written, or it inserts the
execution, its nodes and its first log row and then writes message ids into the nodes. The
ids of the rows are new, and the workflow is one that the caller owns: this is checked
before anything is inserted. -/
theorem start_execution_effect (workflow_version_id : ℕ) (input_payload : JsonObject)
    (new : NewExecution) :
    CallEffect env s key (s.start_execution env workflow_version_id input_payload key new).2 := by
  unfold Tables.start_execution
  split
  · exact .unchanged
  rename_i version hversion
  split
  · exact .unchanged
  rename_i workflow hworkflow
  split
  · exact .unchanged
  rename_i howner
  split
  · exact .unchanged
  rename_i definition hdefinition
  dsimp only
  split
  · exact .unchanged
  rename_i session published hok
  -- the workflow was loaded for the version, and its owner was compared
  have howns : s.owns_workflow key session.execution.workflow_id = true := by
    obtain ⟨found, hfound, -, hsteps, -⟩ := start_execution_spec hok
    cases hfound
    rw [hsteps.sameFrame.workflow_id]
    apply List.any_eq_true.mpr
    exact ⟨workflow, List.mem_of_find?_eq_some hworkflow,
      decide_eq_true ⟨rfl, not_not.mp howner⟩⟩
  have hlogs := start_execution_new_logs hok
  split
  · exact .unchanged
  rename_i s₁ hinsert
  -- a publish that fails leaves the rows of the first commit
  split
  · have heffect := insert_execution_effect env s key howns hlogs hinsert
      (fun row => ⟨rfl, rfl⟩) (fun row (_ : row.execution_id ≠ new.execution_id) => rfl)
    rw [List.map_id_fun'] at heffect
    exact heffect
  · refine insert_execution_effect env s key howns hlogs hinsert ?_ ?_
    · intro row
      split
      · split
        · exact ⟨rfl, rfl⟩
        · exact ⟨rfl, rfl⟩
      · exact ⟨rfl, rfl⟩
    · intro row hrow
      exact if_neg fun h => hrow h.1

theorem delete_execution_effect (execution_id : ℕ) :
    CallEffect env s key (s.delete_execution execution_id key).2 := by
  unfold Tables.delete_execution
  split
  · exact .unchanged
  · rename_i row hfind
    dsimp only
    split
    · exact .unchanged
    · exact .execution_deleted execution_id (owns_of_find_execution s key hfind)

theorem resolve_dlq_job_effect (dlq_id now : ℕ) (resolution_note : Option String) :
    CallEffect env s key (s.resolve_dlq_job dlq_id key now resolution_note).2 := by
  unfold Tables.resolve_dlq_job
  split
  · exact .unchanged
  · rename_i job hfind
    -- the row that is written is one that `_owned_stmt` has found
    unfold Tables.get_dlq_job Tables.owned_jobs at hfind
    obtain ⟨hmem, howns⟩ := List.mem_filter.mp (List.mem_of_find?_eq_some hfind)
    exact .job_resolved job _ hmem howns ⟨rfl, rfl, rfl⟩

/-- **What a call can do.** The methods that write are few, and each of them looks its row
up through the owner of the workflow before it writes; that is why every constructor but
`unchanged` has a workflow of the caller in it. One lemma for each method. -/
theorem call_effect (c : TenantCall) : CallEffect env s key (s.call env key c) := by
  cases c with
  | create_workflow name description definition workflow_id version_id now =>
      exact create_workflow_effect env s key name description definition workflow_id version_id now
  | create_workflow_version workflow_id definition version_id now =>
      exact create_workflow_version_effect env s key workflow_id definition version_id now
  | delete_workflow workflow_id => exact delete_workflow_effect env s key workflow_id
  | start_execution workflow_version_id input_payload new =>
      exact start_execution_effect env s key workflow_version_id input_payload new
  | retry_node execution_id node_id now publish =>
      exact retry_node_effect env s key execution_id node_id now publish
  | delete_execution execution_id => exact delete_execution_effect env s key execution_id
  | resolve_dlq_job dlq_id now resolution_note =>
      exact resolve_dlq_job_effect env s key dlq_id now resolution_note

end Effect

end EventFlow
