/-
The stored versions of a workflow: what `start_execution` and the workers read
is what was validated when the version was stored.

A version is written once, from a definition that has passed
`validate_workflow`, and is never changed ([`Tables.Reachable.stored`]). Both
readers decode it again with `WorkflowDefinition.model_validate`; the dump
validates to the definition it was made from, so they read the same graph, and
the second `validate_workflow` of `start_execution` does not fail.
-/
import EventFlow.TablesSpec

set_option autoImplicit false

namespace EventFlow

open Transition

variable {env : ServiceEnv} {s t : Tables} {key : ℕ}

/-- A call writes versions from accepted definitions only. -/
theorem CallEffect.stored (h : CallEffect env s key t)
    (hs : ∀ version ∈ s.workflow_versions, Stored env version.definition) :
    ∀ version ∈ t.workflow_versions, Stored env version.definition := by
  -- versions come one at a time, at the end
  have hadded : ∀ new : WorkflowVersionRow, Stored env new.definition →
      ∀ version ∈ s.workflow_versions ++ [new], Stored env version.definition := by
    intro new hnew version hversion
    rcases List.mem_append.mp hversion with hold | hlast
    · exact hs version hold
    · rw [List.mem_singleton.mp hlast]
      exact hnew
  cases h with
  | unchanged => exact hs
  | workflow_added workflow version howner hid hversion hstored => exact hadded version hstored
  | version_added version now howns hstored => exact hadded version hstored
  | workflow_deleted w howns =>
      intro version hversion
      exact hs version (List.mem_of_mem_filter hversion)
  | execution_started _ _ _ _ _ _ _ _ _ _ _ => exact hs
  | node_retried _ _ _ _ _ _ _ => exact hs
  | execution_deleted _ _ => exact hs
  | job_resolved _ _ _ _ _ => exact hs

/-- The workers do not write versions. -/
theorem worker_write_versions {w : WorkerWrite} (h : s.worker_write w = some t) :
    t.workflow_versions = s.workflow_versions := by
  unfold Tables.worker_write at h
  dsimp only at h
  split at h
  · cases h
    rfl
  · cases h

/-- **Every version that is reached is stored from an accepted definition.** Two methods
insert versions, both after validation, and nobody updates one. -/
theorem Tables.Reachable.stored (h : s.Reachable env) :
    ∀ version ∈ s.workflow_versions, Stored env version.definition := by
  apply Reaches.invariant
    (fun u : Tables => ∀ version ∈ u.workflow_versions, Stored env version.definition) h
  · intro version hversion
    cases hversion
  · intro u a v hu _ hstep
    cases a with
    | call key c =>
        cases hstep
        exact (call_effect env u key c).stored hu
    | worker w =>
        rw [worker_write_versions hstep]
        exact hu

/-- A stored definition is read as what was accepted. -/
theorem Stored.model_validate {definition : Json} (h : Stored env definition) :
    ∃ d, Accepted env.registry d ∧ definition = d.model_dump ∧
      WorkflowDefinition.model_validate env.pydantic definition = .ok d := by
  obtain ⟨d, haccepted, rfl⟩ := h
  exact ⟨d, haccepted, rfl, WorkflowDefinition.model_validate_model_dump env.pydantic d⟩

/-- Two nodes, the first with a policy of its own, and an edge with a condition. -/
def chain_definition : WorkflowDefinition where
  name := "two_jobs"
  nodes :=
    [{ id := "first", type := "job", config := [("x", .null)]
       retry_policy := some
        { DEFAULT_RETRY_POLICY with
          max_attempts := 5, max_attempts_ge := by decide, max_attempts_le := by decide } },
      { id := "second", type := "job" }]
  edges := [{ from_node := "first", to_node := "second", condition := some "ok" }]

def chain_tables : Tables :=
  Tables.call any_services {} 1 (.create_workflow "two_jobs" "" chain_definition 0 0 0)

end EventFlow
