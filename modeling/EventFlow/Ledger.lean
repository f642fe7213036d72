/-
What has been done in a run.

Three things a run does leave no trace in the rows: how often an executor was
called, how often `retry_node` went through and which completions took effect.
[`Sys.notes`] reads them off a step, with the steps by which recovery takes a
node that is not QUEUED, and [`Recorded`] is a run of the system with its
ledger. The messages ever published need no note: entries never leave the
stream.

The lemmas of the last section are all that later modules use about notes: a
note of an invocation belongs to a task that held a claim, a note of a
completion to a node that was RUNNING.
-/
import EventFlow.NodeLife
import EventFlow.Safety
import EventFlow.Library.History

set_option autoImplicit false

namespace EventFlow

open Transition

/-! ## Notes -/

/-- What the ledger records. -/
inductive Note where
  /-- The executor of a node is called. -/
  | invoked (execution_id : ℕ) (node_id : String)
  /-- A call of `retry_node` commits. -/
  | retried (execution_id : ℕ) (node_id : String)
  /-- A completion commits; `attempt` is that of the row it completes. -/
  | completed (execution_id : ℕ) (node_id : String) (attempt : ℕ)
  /-- Recovery takes a node that is not QUEUED. -/
  | overrode (execution_id : ℕ) (node_id : String)
deriving DecidableEq

/-- The node that a step of recovery takes although its row is not QUEUED:
`process_recovered_job` finds it RUNNING and assigns QUEUED, or `process_job`
claims it from the cached instance of that session after the row has moved on. -/
def Sys.overrides (s : Sys) : Action → Option (ℕ × String)
  | .recover _ m | .recover_claim _ m =>
    match s.stream[m]? with
    | some entry =>
      match s.executions entry.job.execution_id with
      | some rows =>
        if (rows.nodes.row entry.job.node_id).status = .RUNNING then
          some (entry.job.execution_id, entry.job.node_id)
        else none
      | none => none
    | none => none
  | .reclaim t =>
    match (s.tasks t).phase with
    | .recovered _ job cached =>
      match s.executions job.execution_id with
      | some rows =>
        if cached.status = .QUEUED ∧ (rows.nodes.row job.node_id).status ≠ .QUEUED then
          some (job.execution_id, job.node_id)
        else none
      | none => none
    | _ => none
  | _ => none

/-- The notes of a step from `s` to `s'`. -/
def Sys.notes (s : Sys) (a : Action) (s' : Sys) : List Note :=
  match a with
  | .invoke t =>
    match (s'.tasks t).phase with
    | .invoked _ context _ => [.invoked context.execution_id context.node_id]
    | _ => []
  | .retry t e n _ =>
    -- a call that is refused leaves its task idle
    match (s'.tasks t).phase with
    | .publishing .. => [.retried e n]
    | _ => []
  | .complete t _ =>
    -- a result that comes too late leads to an ack, one that counts to a publish
    match (s.tasks t).phase, (s'.tasks t).phase with
    | .invoked _ context _, .publishing .. =>
      match s.executions context.execution_id with
      | some rows => [.completed context.execution_id context.node_id
          (rows.nodes.row context.node_id).attempt]
      | none => []
    | _, _ => []
  | a =>
    match s.overrides a with
    | some (e, n) => [.overrode e n]
    | none => []

/-! ## Runs with a ledger -/

/-- Runs of the system with its ledger, from the empty one. -/
abbrev Recorded (env : Env) (guard : Sys → Action → Prop) (s : Sys) (log : List Note) : Prop :=
  Logged (Sys.step env) Sys.notes guard (Sys.init, []) (s, log)

section Recorded

variable {env : Env} {guard : Sys → Action → Prop} {s : Sys} {log : List Note}

/-- **The invariant rule of a recorded run.** What holds of a step holds of a run with its
ledger. The step rule gives the effect of the action instead of the equation of `step`,
and takes the reading of the clock apart, which no note depends on. -/
theorem Recorded.invariant (P : Sys → List Note → Prop) {s₀ : Sys} {log₀ : List Note}
    (hrun : Logged (Sys.step env) Sys.notes guard (s₀, log₀) (s, log)) (ht : s₀.Typed env)
    (h₀ : P s₀ log₀) (hclock : ∀ u l clock, P u l → P { u with clock := clock } l)
    (hstep : ∀ u a v l, u.Typed env → P u l → guard u a → Effect env u a v →
      P v (l ++ u.notes a v)) : P s log := by
  refine (Reaches.invariant (fun u => u.1.Typed env ∧ P u.1 u.2) hrun ⟨ht, h₀⟩ ?_).2
  rintro ⟨u, l⟩ a ⟨v, l'⟩ ⟨htu, hu⟩ hg hlogged
  obtain ⟨hs, rfl⟩ : u.step env a = some v ∧ l' = l ++ u.notes a v :=
    logged_eq_some_iff.mp hlogged
  refine ⟨typed_of_step htu hs, ?_⟩
  obtain ⟨w, hw, rfl⟩ := Option.map_eq_some_iff.mp hs
  -- the clock is in no note
  exact hclock w (l ++ u.notes a w) _ (hstep u a w l htu hu hg (effect_of_act htu hw))

/-- Every run of the system has a ledger. -/
theorem recorded_of_reaches (hrun : Reaches (Sys.step env) guard Sys.init s) :
    ∃ log, Recorded env guard s log :=
  hrun.with_log []

theorem Recorded.typed (hrun : Recorded env guard s log) : s.Typed env :=
  typed_of_reaches hrun.forget

end Recorded

/-- The state and the ledger that a list of actions leads to under a check. -/
def recorded_run (env : Env) (check : Sys → Action → Bool) (as : List Action) :
    Option (Sys × List Note) :=
  run (restrict (logged (Sys.step env) Sys.notes) fun s a => check s.1 a) (Sys.init, []) as

/-! ## What a note says about its step -/

section Notes

variable {env : Env} {s s' : Sys} {a : Action}

/-- An override is noted. -/
theorem mem_notes_of_overrides {e : ℕ} {n : String} (h : s.overrides a = some (e, n)) :
    .overrode e n ∈ s.notes a s' := by
  cases a with
  | recover t m => simp only [Sys.notes, h, List.mem_singleton]
  | recover_claim t m => simp only [Sys.notes, h, List.mem_singleton]
  | reclaim t => simp only [Sys.notes, h, List.mem_singleton]
  | _ => cases h

/-- Nothing else is noted as one. -/
theorem overrides_of_mem_notes {e : ℕ} {n : String} (h : .overrode e n ∈ s.notes a s') :
    s.overrides a = some (e, n) := by
  cases a with
  | invoke t =>
      simp only [Sys.notes] at h
      split at h <;> simp at h
  | retry t e n o =>
      simp only [Sys.notes] at h
      split at h <;> simp at h
  | complete t r =>
      simp only [Sys.notes] at h
      split at h
      · split at h <;> simp at h
      · cases h
  | _ =>
      simp only [Sys.notes] at h
      split at h
      · rename_i heq
        rw [List.mem_singleton, Note.overrode.injEq] at h
        rw [heq, h.1, h.2]
      · cases h

/-- The two ways an `invoke` can go. -/
theorem Effect.invoke_cases {t : ℕ} (h : Effect env s (.invoke t) s') :
    s' = s.park t .idle ∨
      ∃ m attempt job rows d node_def, s.tasks t = ⟨.claimed m job attempt, []⟩ ∧
        s.executions job.execution_id = some rows ∧
        s' = s.park t (.invoked m (build_context job.execution_id rows.execution rows.nodes d
          node_def job.node_id attempt) rows.execution) := by
  cases h with
  | refused ha => rcases ha with ⟨_, _, _, _, ha⟩ | ⟨_, _, _, _, ha⟩ | ⟨_, _, ha⟩ <;> cases ha
  | discard ha => rcases ha with ha | ha | ha <;> cases ha
  | discard_logged ha => rcases ha with ha | ha <;> cases ha
  | claim ha => rcases ha with ⟨ha, -⟩ | ⟨ha, -⟩ <;> cases ha
  | stop ha ht =>
      rw [Action.task, Option.some.injEq] at ht
      exact .inl (by rw [ht])
  | invoke htask hrows hlookup => exact .inr ⟨_, _, _, _, _, _, htask, hrows, rfl⟩

/-- **An invocation is made by a task that holds a claim**, and touches no row. The note
is only written by `invoke`, and only when the lookups have gone well; in this case the
task has gone on to its executor, so that the same claim cannot be used again. -/
theorem Effect.mem_notes_invoked {e : ℕ} {n : String} (h : Effect env s a s')
    (hmem : .invoked e n ∈ s.notes a s') :
    ∃ t m job k rows, a = .invoke t ∧ s.notes a s' = [.invoked e n] ∧
      (s.tasks t).phase = .claimed m job k ∧ job.execution_id = e ∧ job.node_id = n ∧
      s.executions e = some rows ∧ s'.executions = s.executions ∧
      ∀ m' job' k', (s'.tasks t).phase ≠ .claimed m' job' k' := by
  cases a with
  | invoke t =>
      rcases h.invoke_cases with rfl | ⟨m, k, job, rows, d, node_def, htask, hrows, rfl⟩
      · simp [Sys.notes, Sys.park] at hmem
      · have hnotes : s.notes (.invoke t) (s.park t (.invoked m (build_context job.execution_id
            rows.execution rows.nodes d node_def job.node_id k) rows.execution))
            = [.invoked job.execution_id job.node_id] := by
          simp only [Sys.notes, Sys.park, Function.update_self]
          rfl
        rw [hnotes, List.mem_singleton, Note.invoked.injEq] at hmem
        obtain ⟨rfl, rfl⟩ := hmem
        refine ⟨t, m, job, k, rows, rfl, hnotes, by rw [htask], rfl, rfl, hrows, rfl, ?_⟩
        intro m' job' k'
        simp [Sys.park]
  | retry t e n o =>
      simp only [Sys.notes] at hmem
      split at hmem <;> simp at hmem
  | complete t r =>
      simp only [Sys.notes] at hmem
      split at hmem
      · split at hmem <;> simp at hmem
      · cases hmem
  | _ =>
      simp only [Sys.notes] at hmem
      split at hmem <;> simp at hmem

/-- The ways a `complete` can go: only a commit leaves something to publish. -/
theorem Effect.complete_cases {t : ℕ} {result : ExecutorResult}
    (h : Effect env s (.complete t result) s') :
    (s' = s.park t .idle ∨ ∃ m, s' = s.park t (.returning (some m))) ∨
      ∃ m context execution rows d node_def session pubs,
        (s.tasks t).phase = .invoked m context execution ∧
        s.executions context.execution_id = some rows ∧
        Completed d node_def context.node_id result rows.nodes execution context.execution_id
          s.clock session pubs ∧
        s' = s.commit t context.execution_id
          { execution := execution.flush session.execution rows.execution
            nodes := session.nodes
            dead_letter_jobs := rows.dead_letter_jobs ++ session.new_dead_letter_jobs
            logs := rows.logs ++ session.new_logs }
          session.ws_events
          (.publishing (some m) context.execution_id (Sys.jobs_of session pubs) []) := by
  cases h with
  | refused ha => rcases ha with ⟨_, _, _, _, ha⟩ | ⟨_, _, _, _, ha⟩ | ⟨_, _, ha⟩ <;> cases ha
  | discard ha => rcases ha with ha | ha | ha <;> cases ha
  | discard_logged ha => rcases ha with ha | ha <;> cases ha
  | claim ha => rcases ha with ⟨ha, -⟩ | ⟨ha, -⟩ <;> cases ha
  | stop ha ht =>
      rw [Action.task, Option.some.injEq] at ht
      exact .inl (.inl (by rw [ht]))
  | stale hphase hrows hst => exact .inl (.inr ⟨_, rfl⟩)
  | complete hphase hrows hlookup hsteps hends hdone =>
      exact .inr ⟨_, _, _, _, _, _, _, _, hphase, hrows, hdone, rfl⟩

/-- **A completion that is noted found its node RUNNING** and has moved it on. A
completion that comes too late parks its task and is not noted. One that is committed has
found its node RUNNING, and leaves it at the next attempt, SUCCEEDED or DEAD_LETTERED. -/
theorem Effect.mem_notes_completed {e k : ℕ} {n : String} (h : Effect env s a s')
    (hmem : .completed e n k ∈ s.notes a s') :
    ∃ rows rows', s.notes a s' = [.completed e n k] ∧ s.executions e = some rows ∧
      s'.executions e = some rows' ∧ (rows.nodes.row n).status = .RUNNING ∧
      k = (rows.nodes.row n).attempt ∧
      ((rows'.nodes.row n).attempt = k + 1 ∨
        (rows'.nodes.row n).attempt = k ∧ ((rows'.nodes.row n).status = .SUCCEEDED ∨
          (rows'.nodes.row n).status = .DEAD_LETTERED)) := by
  cases a with
  | complete t r =>
      rcases h.complete_cases with (rfl | ⟨m, rfl⟩) |
        ⟨m, context, execution, rows, d, node_def, session, pubs, hphase, hrows, hdone, rfl⟩
      · simp only [Sys.notes, Sys.park, Function.update_self] at hmem
        split at hmem <;> simp_all
      · simp only [Sys.notes, Sys.park, Function.update_self] at hmem
        split at hmem <;> simp_all
      · simp only [Sys.notes, Sys.commit, Function.update_self, hphase, hrows,
          List.mem_singleton, Note.completed.injEq] at hmem ⊢
        obtain ⟨rfl, rfl, rfl⟩ := hmem
        refine ⟨rows, _, rfl, hrows, Function.update_self .., hdone.running.2, rfl, ?_⟩
        rcases hdone.own_row with hrow | ⟨hrow, -⟩ | hrow
        · exact .inr ⟨by rw [hrow]; rfl, .inl (by rw [hrow]; rfl)⟩
        · exact .inl (by rw [hrow]; rfl)
        · exact .inr ⟨by rw [hrow]; rfl, .inr (by rw [hrow]; rfl)⟩
  | invoke t =>
      simp only [Sys.notes] at hmem
      split at hmem <;> simp at hmem
  | retry t e n o =>
      simp only [Sys.notes] at hmem
      split at hmem <;> simp at hmem
  | _ =>
      simp only [Sys.notes] at hmem
      split at hmem <;> simp at hmem

end Notes

end EventFlow
