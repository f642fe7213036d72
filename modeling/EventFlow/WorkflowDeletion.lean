/-
Deleting a workflow: the cascades of the models against the foreign keys of the
tables.

`WorkflowService.delete_workflow` deletes the workflow and leaves the rest to the
ORM. A workflow has its versions with `cascade="all, delete-orphan"`; a version
has its executions without a cascade, so the ORM clears their foreign key, in a
column that is NOT NULL; and nothing leads from a workflow to the executions that
name it. `flush_delete` is what the flush sends to the database, statement by
statement, and [`delete_workflow_eq_flush`] that `Tables.delete_workflow` is its
outcome.

Every stored execution names a stored version, and the workflow of that version
([`VersionKeys`]). So an execution of the workflow is all that can be in the way
([`delete_workflow_whole_iff`]); `delete_execution`, which deletes the rows that
are in its way first, is what this method lacks.
-/
import EventFlow.Versions
import EventFlow.Library.Selection

set_option autoImplicit false

namespace EventFlow

open Transition

namespace Tables

/-! ## The flush -/

variable (s : Tables)

/-- The versions that the cascade deletes. -/
def version_ids_of (workflow_id : ℕ) : List ℕ :=
  (s.workflow_versions.filter fun v => decide (v.workflow_id = workflow_id)).map
    WorkflowVersionRow.id

/-- `UPDATE executions SET workflow_version_id = NULL` for the executions of these
versions; the column is NOT NULL. -/
def clear_version_of_executions (versions : List ℕ) : Except ServiceError Tables :=
  if s.executions.any fun row => decide (row.workflow_version_id ∈ versions) then
    .error .integrity_error
  else .ok s

/-- `DELETE FROM workflow_versions`; `executions` references the table. -/
def delete_versions (workflow_id : ℕ) : Except ServiceError Tables :=
  if s.executions.any fun row => decide (row.workflow_version_id ∈ s.version_ids_of workflow_id)
  then .error .integrity_error
  else .ok
    { s with
      workflow_versions := s.workflow_versions.filter fun v =>
        decide (v.workflow_id ≠ workflow_id) }

/-- `DELETE FROM workflows`; `workflow_versions` and `executions` reference the
table. -/
def delete_workflow_row (workflow_id : ℕ) : Except ServiceError Tables :=
  if (s.workflow_versions.any fun v => decide (v.workflow_id = workflow_id)) ||
      s.executions.any fun row => decide (row.workflow_id = workflow_id) then
    .error .integrity_error
  else .ok { s with workflows := s.workflows.filter fun w => decide (w.id ≠ workflow_id) }

/-- The statements of `session.delete(workflow)`, children first. -/
def flush_delete (workflow_id : ℕ) : Except ServiceError Tables :=
  (s.clear_version_of_executions (s.version_ids_of workflow_id)).bind fun s =>
    (s.delete_versions workflow_id).bind fun s => s.delete_workflow_row workflow_id

/-- What the method returns after its flush: a session that fails is rolled
back. -/
def after_flush : Except ServiceError Tables → Except ServiceError Bool × Tables
  | .ok t => (.ok true, t)
  | .error err => (.error err, s)

/-- An execution of a version of the workflow. -/
def version_executed (workflow_id : ℕ) : Bool :=
  s.executions.any fun row => decide (row.workflow_version_id ∈ s.version_ids_of workflow_id)

/-- An execution of the workflow. -/
def executed (workflow_id : ℕ) : Bool :=
  s.executions.any fun row => decide (row.workflow_id = workflow_id)

/-- The tables without the workflow and its versions. -/
def without_workflow (workflow_id : ℕ) : Tables :=
  { s with
    workflows := s.workflows.filter fun w => decide (w.id ≠ workflow_id)
    workflow_versions := s.workflow_versions.filter fun v =>
      decide (v.workflow_id ≠ workflow_id) }

end Tables

section Flush

variable (s : Tables) (w key : ℕ)

/-- How the flush ends. -/
theorem flush_delete_eq : s.flush_delete w =
    if s.version_executed w || s.executed w then .error .integrity_error
    else .ok (s.without_workflow w) := by
  unfold Tables.flush_delete Tables.clear_version_of_executions
  change (if s.version_executed w then _ else _ : Except ServiceError Tables).bind _ = _
  by_cases hversion : s.version_executed w = true
  · -- the column cannot be cleared
    rw [if_pos hversion, hversion]
    rfl
  · rw [if_neg hversion]
    show (s.delete_versions w).bind _ = _
    unfold Tables.delete_versions
    change (if s.version_executed w then _ else _ : Except ServiceError Tables).bind _ = _
    rw [if_neg hversion, Bool.eq_false_of_not_eq_true hversion, Bool.false_or]
    have hnone : ((s.workflow_versions.filter fun v => decide (v.workflow_id ≠ w)).any fun v =>
        decide (v.workflow_id = w)) = false := by
      rw [List.any_eq_false]
      intro v hv
      obtain ⟨-, hne⟩ := List.mem_filter.mp hv
      simpa using hne
    show Tables.delete_workflow_row _ w = _
    unfold Tables.delete_workflow_row
    dsimp only
    rw [hnone, Bool.false_or]
    rfl

/-- **`delete_workflow` is its flush**, in a transaction of its own. The flush raises at
the first statement that a foreign key refuses, and the rollback leaves the tables as they
were. -/
theorem delete_workflow_eq_flush (howns : s.owns_workflow key w = true) :
    s.delete_workflow w key = s.after_flush (s.flush_delete w) := by
  obtain ⟨row, hrow⟩ : ∃ row, s.workflows.find?
      (fun row => decide (row.id = w ∧ row.owner_api_key_id = key)) = some row := by
    rw [← Option.isSome_iff_exists, List.find?_isSome]
    exact List.any_eq_true.mp howns
  rw [flush_delete_eq]
  unfold Tables.delete_workflow
  rw [hrow]
  have hany : (s.executions.any fun row => decide (row.workflow_id = w ∨
      row.workflow_version_id ∈ s.version_ids_of w)) = (s.version_executed w || s.executed w) := by
    rw [Bool.eq_iff_iff, Bool.or_eq_true]
    unfold Tables.version_executed Tables.executed
    simp only [List.any_eq_true, decide_eq_true_eq]
    constructor
    · rintro ⟨row, hmem, hof | hversion⟩
      · exact Or.inr ⟨row, hmem, hof⟩
      · exact Or.inl ⟨row, hmem, hversion⟩
    · rintro (⟨row, hmem, hversion⟩ | ⟨row, hmem, hof⟩)
      · exact ⟨row, hmem, Or.inr hversion⟩
      · exact ⟨row, hmem, Or.inl hof⟩
  unfold Tables.version_ids_of at hany
  dsimp only
  rw [hany]
  cases s.version_executed w || s.executed w with
  | true => rfl
  | false => rfl

end Flush

/-! ## The versions of the executions -/

/-- The versions with the workflows they are of. -/
def Tables.version_keys (s : Tables) : List (ℕ × ℕ) :=
  s.workflow_versions.map fun v => (v.id, v.workflow_id)

/-- The versions and the workflows that the executions name. -/
def Tables.execution_keys (s : Tables) : List (ℕ × ℕ) :=
  s.executions.map fun row => (row.workflow_version_id, row.workflow_id)

/-- Ids of versions are primary keys, and an execution names a version together
with its workflow. -/
structure VersionKeys (s : Tables) : Prop where
  ids : (s.workflow_versions.map WorkflowVersionRow.id).Nodup
  executions : ∀ k ∈ s.execution_keys, k ∈ s.version_keys

/-- What a step does to versions and executions, as far as these keys go. -/
inductive KeysStep (s t : Tables) : Prop where
  | kept (hversions : t.workflow_versions = s.workflow_versions)
      (hexecutions : ∀ k ∈ t.execution_keys, k ∈ s.execution_keys)
  | version_added (v : WorkflowVersionRow)
      (hid : v.id ∉ s.workflow_versions.map WorkflowVersionRow.id)
      (hversions : t.workflow_versions = s.workflow_versions ++ [v])
      (hexecutions : t.executions = s.executions)
  | workflow_deleted (w : ℕ)
      (hversions : t.workflow_versions = s.workflow_versions.filter fun v =>
        decide (v.workflow_id ≠ w))
      (hexecutions : t.executions = s.executions)
      (hnone : ∀ row ∈ s.executions, row.workflow_id ≠ w)
  | execution_started (version : WorkflowVersionRow) (hmem : version ∈ s.workflow_versions)
      (hversions : t.workflow_versions = s.workflow_versions)
      (hexecutions : ∀ k ∈ t.execution_keys,
        k ∈ s.execution_keys ∨ k = (version.id, version.workflow_id))

section Keys

variable {env : ServiceEnv} {s t : Tables} {key : ℕ}

theorem KeysStep.refl (s : Tables) : KeysStep s s := .kept rfl fun _ h => h

/-- **The keys are kept.** An execution is only inserted with the ids of a version that
was found, and a version goes only when no execution names it. -/
theorem KeysStep.versionKeys (h : KeysStep s t) (hs : VersionKeys s) : VersionKeys t := by
  cases h with
  | kept hversions hexecutions =>
      constructor
      · rw [hversions]
        exact hs.ids
      · intro k hk
        unfold Tables.version_keys
        rw [hversions]
        exact hs.executions k (hexecutions k hk)
  | version_added v hid hversions hexecutions =>
      constructor
      · rw [hversions]
        exact Selection.nodup_key_concat hs.ids hid
      · intro k hk
        unfold Tables.execution_keys at hk
        rw [hexecutions] at hk
        unfold Tables.version_keys
        rw [hversions, List.map_append]
        exact List.mem_append_left _ (hs.executions k hk)
  | workflow_deleted w hversions hexecutions hnone =>
      constructor
      · rw [hversions]
        exact Selection.nodup_key_filter hs.ids _
      · intro k hk
        unfold Tables.execution_keys at hk
        rw [hexecutions] at hk
        obtain ⟨row, hrow, rfl⟩ := List.mem_map.mp hk
        obtain ⟨v, hv, heq⟩ := List.mem_map.mp (hs.executions _ (List.mem_map_of_mem hrow))
        rw [Prod.mk.injEq] at heq
        unfold Tables.version_keys
        rw [hversions]
        -- the version is of the execution's workflow, which is not the deleted one
        refine List.mem_map.mpr ⟨v, List.mem_filter.mpr ⟨hv, ?_⟩, by rw [heq.1, heq.2]⟩
        rw [decide_eq_true_eq, heq.2]
        exact hnone row hrow
  | execution_started version hmem hversions hexecutions =>
      constructor
      · rw [hversions]
        exact hs.ids
      · intro k hk
        unfold Tables.version_keys
        rw [hversions]
        rcases hexecutions k hk with hk | rfl
        · exact hs.executions k hk
        · exact List.mem_map_of_mem hmem

theorem create_workflow_keys (name description : String) (d : WorkflowDefinition)
    (workflow_id version_id now : ℕ) :
    KeysStep s (s.create_workflow env name description d key workflow_id version_id now).2 := by
  unfold Tables.create_workflow
  split
  · exact .refl s
  · split
    · rename_i hfree
      obtain ⟨-, hid⟩ := Bool.and_eq_true_iff.mp hfree
      exact .version_added _ (insertable_singleton hid) rfl rfl
    · exact .refl s

theorem create_workflow_version_keys (workflow_id : ℕ) (d : WorkflowDefinition)
    (version_id now : ℕ) :
    KeysStep s (s.create_workflow_version env workflow_id d key version_id now).2 := by
  unfold Tables.create_workflow_version
  split
  · exact .refl s
  · split
    · exact .refl s
    · dsimp only
      split
      · rename_i hid
        exact .version_added
          { id := version_id, workflow_id, version_number := _, definition := d.model_dump
            checksum := _, created_at := now }
          (insertable_singleton hid) rfl rfl
      · exact .refl s

theorem delete_workflow_keys (workflow_id : ℕ) :
    KeysStep s (s.delete_workflow workflow_id key).2 := by
  unfold Tables.delete_workflow
  split
  · exact .refl s
  · dsimp only
    split
    · exact .refl s
    · rename_i hnone
      refine .workflow_deleted workflow_id rfl rfl ?_
      intro row hrow hof
      exact hnone (List.any_eq_true.mpr ⟨row, hrow, decide_eq_true (Or.inl hof)⟩)

theorem retry_node_keys (execution_id : ℕ) (node_id : String) (now : ℕ)
    (publish : Option (Option ℕ)) :
    KeysStep s (s.retry_node execution_id node_id key now publish).2 := by
  unfold Tables.retry_node
  split
  · exact .refl s
  · split
    · exact .refl s
    · dsimp only
      split
      · exact .refl s
      · split
        · exact .refl s
        · split
          · exact .kept rfl fun _ h => h
          · exact .kept rfl fun _ h => h
          · exact .kept rfl fun _ h => h

theorem delete_execution_keys (execution_id : ℕ) :
    KeysStep s (s.delete_execution execution_id key).2 := by
  unfold Tables.delete_execution
  split
  · exact .refl s
  · dsimp only
    split
    · exact .refl s
    · refine .kept rfl fun k hk => ?_
      obtain ⟨row, hrow, rfl⟩ := List.mem_map.mp hk
      exact List.mem_map_of_mem (List.mem_of_mem_filter hrow)

theorem resolve_dlq_job_keys (dlq_id now : ℕ) (resolution_note : Option String) :
    KeysStep s (s.resolve_dlq_job dlq_id key now resolution_note).2 := by
  unfold Tables.resolve_dlq_job
  split
  · exact .refl s
  · exact .kept rfl fun _ h => h

/-- The new execution row. -/
theorem insert_execution_keys {new : NewExecution} {rows : ExecutionRows}
    (h : s.insert_execution new rows = some t) :
    t.workflow_versions = s.workflow_versions ∧
      t.executions = s.executions ++ [{ rows.execution with id := new.execution_id }] := by
  unfold Tables.insert_execution at h
  dsimp only at h
  split at h
  · cases h
    exact ⟨rfl, rfl⟩
  · cases h

/-- A start inserts an execution with the id of a stored version and of the workflow of
this version; nothing else that it writes has a part in the keys. -/
theorem start_execution_keys (workflow_version_id : ℕ) (input_payload : JsonObject)
    (new : NewExecution) :
    KeysStep s (s.start_execution env workflow_version_id input_payload key new).2 := by
  unfold Tables.start_execution
  split
  · exact .refl s
  rename_i version hversion
  split
  · exact .refl s
  rename_i workflow hworkflow
  split
  · exact .refl s
  split
  · exact .refl s
  dsimp only
  split
  · exact .refl s
  rename_i session published hok
  -- the execution is of the version that was found, and of its workflow
  have hkeys : (session.execution.workflow_version_id, session.execution.workflow_id)
      = (version.id, version.workflow_id) := by
    obtain ⟨found, hfound, -, hsteps, -, -, -, hvid, -⟩ := start_execution_spec hok
    cases hfound
    have hv := List.find?_some hversion
    have hw := List.find?_some hworkflow
    rw [decide_eq_true_eq] at hv hw
    rw [hvid, hsteps.sameFrame.workflow_id, ← hv, ← hw]
    rfl
  split
  · exact .refl s
  rename_i s₁ hinsert
  obtain ⟨hversions, hexecutions⟩ := insert_execution_keys hinsert
  have hstarted : ∀ u : Tables, u.workflow_versions = s₁.workflow_versions →
      u.executions = s₁.executions → KeysStep s u := by
    intro u huv hue
    refine .execution_started version (List.mem_of_find?_eq_some hversion) (huv.trans hversions) ?_
    intro k hk
    unfold Tables.execution_keys at hk
    rw [hue, hexecutions, List.map_append] at hk
    rcases List.mem_append.mp hk with hk | hk
    · exact Or.inl hk
    · exact Or.inr ((List.mem_singleton.mp hk).trans hkeys)
  split
  · exact hstarted s₁ rfl rfl
  · exact hstarted _ rfl rfl

theorem call_keys (c : TenantCall) : KeysStep s (s.call env key c) := by
  cases c with
  | create_workflow name description d workflow_id version_id now =>
      exact create_workflow_keys name description d workflow_id version_id now
  | create_workflow_version workflow_id d version_id now =>
      exact create_workflow_version_keys workflow_id d version_id now
  | delete_workflow workflow_id => exact delete_workflow_keys workflow_id
  | start_execution workflow_version_id input_payload new =>
      exact start_execution_keys workflow_version_id input_payload new
  | retry_node execution_id node_id now publish =>
      exact retry_node_keys execution_id node_id now publish
  | delete_execution execution_id => exact delete_execution_keys execution_id
  | resolve_dlq_job dlq_id now resolution_note =>
      exact resolve_dlq_job_keys dlq_id now resolution_note

theorem worker_write_keys {w : WorkerWrite} (h : s.worker_write w = some t) : KeysStep s t := by
  refine .kept (worker_write_versions h) ?_
  unfold Tables.worker_write at h
  dsimp only at h
  split at h
  · cases h
    intro k hk
    unfold Tables.execution_keys at hk
    rw [List.map_map] at hk
    obtain ⟨row, hrow, rfl⟩ := List.mem_map.mp hk
    refine List.mem_map.mpr ⟨row, hrow, ?_⟩
    rw [Function.comp_apply]
    split <;> rfl
  · cases h

/-- **Every store that is reached** has these keys. Workers write no key and the other
calls none of these. -/
theorem Tables.Reachable.versionKeys (h : s.Reachable env) : VersionKeys s := by
  apply Reaches.invariant VersionKeys h
  · refine ⟨List.nodup_nil, ?_⟩
    intro k hk
    cases hk
  · intro u a v hu _ hstep
    cases a with
    | call key c =>
        cases hstep
        exact (call_keys c).versionKeys hu
    | worker w => exact (worker_write_keys hstep).versionKeys hu

/-- An execution of one of the versions is an execution of the workflow. -/
theorem VersionKeys.version_executed (h : VersionKeys s) {w : ℕ}
    (hversion : s.version_executed w = true) : s.executed w = true := by
  obtain ⟨row, hrow, hmem⟩ := List.any_eq_true.mp hversion
  rw [decide_eq_true_eq] at hmem
  obtain ⟨v, hv, hid⟩ := List.mem_map.mp hmem
  obtain ⟨hv, hof⟩ := List.mem_filter.mp hv
  obtain ⟨v', hv', heq⟩ := List.mem_map.mp (h.executions _ (List.mem_map_of_mem hrow))
  rw [Prod.mk.injEq] at heq
  rw [decide_eq_true_eq] at hof
  -- both are the version that the execution names
  have hsame := Selection.eq_of_key h.ids hv hv' (hid.trans heq.1.symm)
  refine List.any_eq_true.mpr ⟨row, hrow, decide_eq_true ?_⟩
  rw [← heq.2, ← hsame, hof]

end Keys

/-! ## Deleting the whole workflow -/

/-- The execution is one of the workflow. -/
def Tables.execution_of (s : Tables) (w e : ℕ) : Bool :=
  s.executions.any fun row => decide (row.id = e ∧ row.workflow_id = w)

/-- The workflow is gone with everything that belongs to it, and everything else
is as it was. -/
structure WorkflowGone (w : ℕ) (s t : Tables) : Prop where
  workflows : t.workflows = s.workflows.filter fun row => decide (row.id ≠ w)
  versions : t.workflow_versions = s.workflow_versions.filter fun v => decide (v.workflow_id ≠ w)
  executions : t.executions = s.executions.filter fun row => decide (row.workflow_id ≠ w)
  nodes : t.node_executions = s.node_executions.filter fun row =>
    !s.execution_of w row.execution_id
  logs : t.execution_logs = s.execution_logs.filter fun row => !s.execution_of w row.execution_id
  jobs : t.dead_letter_jobs = s.dead_letter_jobs.filter fun job =>
    !s.execution_of w job.execution_id

section Whole

variable {s : Tables} {w : ℕ}

/-- Without an execution, the workflow and its versions are all there is of it. The nodes,
logs and dead letters of a workflow hang on its executions, so with no execution there are
none of them either. -/
theorem workflowGone_without (h : s.executed w = false) :
    WorkflowGone w s (s.without_workflow w) := by
  have hnone : ∀ row ∈ s.executions, row.workflow_id ≠ w := by
    intro row hrow hof
    have hno := List.any_eq_false.mp h row hrow
    exact hno (decide_eq_true hof)
  have hof : ∀ e, s.execution_of w e = false := by
    intro e
    unfold Tables.execution_of
    rw [List.any_eq_false]
    intro row hrow hboth
    rw [decide_eq_true_eq] at hboth
    exact hnone row hrow hboth.2
  refine ⟨rfl, rfl, ?_, ?_, ?_, ?_⟩
  · rw [List.filter_eq_self.mpr]
    · rfl
    · intro row hrow
      exact decide_eq_true (hnone row hrow)
  · rw [List.filter_eq_self.mpr]
    · rfl
    · intro row _
      rw [hof]
      rfl
  · rw [List.filter_eq_self.mpr]
    · rfl
    · intro row _
      rw [hof]
      rfl
  · rw [List.filter_eq_self.mpr]
    · rfl
    · intro row _
      rw [hof]
      rfl

end Whole

/-- **When a workflow can be deleted**: exactly if it has never been executed, or all its
executions have been deleted before. An execution of the workflow names it, which its
deletion would leave dangling, and names a version, whose column the ORM tries to clear;
either way the database refuses. Without one, no foreign key is in the way, by
[`VersionKeys`] also none of a foreign execution that names one of the versions. -/
theorem delete_workflow_whole_iff (env : ServiceEnv) (s : Tables) (hreach : s.Reachable env)
    (key w : ℕ) (howns : s.owns_workflow key w = true) :
    (s.delete_workflow w key).1 = .ok true ∧ WorkflowGone w s (s.delete_workflow w key).2 ↔
      ∀ row ∈ s.executions, row.workflow_id ≠ w := by
  have hexecuted : s.executed w = false ↔ ∀ row ∈ s.executions, row.workflow_id ≠ w := by
    unfold Tables.executed
    simp only [List.any_eq_false, decide_eq_true_eq, ne_eq]
  rw [delete_workflow_eq_flush s w key howns, flush_delete_eq, ← hexecuted]
  cases hrun : s.executed w with
  | true =>
      rw [Bool.or_true, if_pos rfl]
      refine iff_of_false ?_ (by decide)
      rintro ⟨hok, -⟩
      cases hok
  | false =>
      have hversion : s.version_executed w = false := by
        rw [Bool.eq_false_iff]
        intro hversion
        rw [hreach.versionKeys.version_executed hversion] at hrun
        cases hrun
      rw [hversion, Bool.or_false, if_neg Bool.false_ne_true]
      exact iff_of_true ⟨rfl, workflowGone_without hrun⟩ rfl

theorem chain_tables_reachable : chain_tables.Reachable any_services :=
  Reaches.single (.call 1 (.create_workflow "two_jobs" "" chain_definition 0 0 0)) trivial rfl

/-- A workflow that has not been started. -/
theorem delete_workflow_whole_chain :
    chain_tables.owns_workflow 1 0 = true ∧
      (chain_tables.delete_workflow 0 1).1 = .ok true ∧
      WorkflowGone 0 chain_tables (chain_tables.delete_workflow 0 1).2 := by
  have howns : chain_tables.owns_workflow 1 0 = true := by decide +kernel
  have hnone : chain_tables.executions.map (fun row => row.workflow_id) = [] := by decide +kernel
  refine ⟨howns, (delete_workflow_whole_iff any_services chain_tables chain_tables_reachable 1 0
    howns).mpr ?_⟩
  intro row hrow
  rw [List.map_eq_nil_iff.mp hnone] at hrow
  cases hrow

/-- The same workflow after it has been started once. -/
def started_tables : Tables :=
  chain_tables.call any_services 1 (.start_execution 0 []
    { execution_id := 0, node_pk := String.length, log_pk := id, now := 1
      publish := fun _ => some none })

/-- **An execution is in the way.** The owner gets an error, and the workflow
stays. -/
theorem started_workflow_not_deleted :
    started_tables.Reachable any_services ∧ started_tables.owns_workflow 1 0 = true ∧
      (started_tables.delete_workflow 0 1).1 = .error .integrity_error ∧
      ¬ WorkflowGone 0 started_tables (started_tables.delete_workflow 0 1).2 := by
  have hreach : started_tables.Reachable any_services :=
    .tail (.call 1 (.start_execution 0 []
      { execution_id := 0, node_pk := String.length, log_pk := id, now := 1
        publish := fun _ => some none })) chain_tables_reachable trivial rfl
  have howns : started_tables.owns_workflow 1 0 = true := by decide +kernel
  have hexecuted : started_tables.executed 0 = true := by decide +kernel
  have hdelete : started_tables.delete_workflow 0 1
      = (.error .integrity_error, started_tables) := by
    rw [delete_workflow_eq_flush started_tables 0 1 howns, flush_delete_eq, hexecuted,
      Bool.or_true, if_pos rfl]
    rfl
  refine ⟨hreach, howns, by rw [hdelete], ?_⟩
  rw [hdelete]
  intro hgone
  -- the workflow that should be gone is still the caller's
  obtain ⟨row, hrow, hid⟩ := List.any_eq_true.mp howns
  rw [decide_eq_true_eq] at hid
  have hkept := hgone.workflows ▸ hrow
  obtain ⟨-, hne⟩ := List.mem_filter.mp hkept
  rw [decide_eq_true_eq] at hne
  exact hne hid.1

end EventFlow
