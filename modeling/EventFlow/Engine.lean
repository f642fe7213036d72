/-
`services/execution_engine.py`: the API commands that change executions, up to
the commit each of them makes before it publishes.

`Env` is what the commands and the workers look up and never write: the
executor registry and the stored workflow versions, each joined with the
workflow it belongs to.

`start_execution` builds the rows of a new execution in a session of its own
and moves the roots to QUEUED; `retry_node` moves one DEAD_LETTERED node back
to QUEUED and resolves its dead-letter row, leaving the execution row alone.
Both either raise, and then nothing is committed, or return the session to
commit together with the ids they are going to publish.
-/
import EventFlow.RuntimeSpec

set_option autoImplicit false

namespace EventFlow

/-- A row of `workflow_versions` joined with its workflow. -/
structure WorkflowVersion where
  workflow_id : ℕ
  owner_api_key_id : ℕ
  definition : WorkflowDefinition

/-- What commands and workers look up. -/
structure Env where
  registry : ExecutorRegistry
  versions : ℕ → Option WorkflowVersion

/-! ## `start_execution` -/

/-- The `NodeExecution` created for a node of the definition. -/
def initial_node (d : WorkflowDefinition) (n : String) : NodeExecution :=
  match d.node_def_by_id n with
  | some node =>
    { node_type := node.type, status := .PENDING, attempt := 0
      max_attempts := (resolve_retry_policy node d).max_attempts }
  | none => { node_type := "", status := .PENDING, attempt := 0, max_attempts := 1 }

/-- The loop that moves the root nodes to QUEUED. -/
def queue_roots (root_nodes : List String) : List String → Session → Except PyError Session
  | [], s => .ok s
  | n :: rest, s =>
    if n ∈ root_nodes then do
      let s ← transition_node_status s n .PENDING .QUEUED
      queue_roots root_nodes rest s
    else queue_roots root_nodes rest s

/-- The session of `start_execution` once it has added its rows. -/
def new_session (version : WorkflowVersion) (workflow_version_id execution_id now : ℕ)
    (input_payload : Option JsonObject) : Session where
  execution_id := execution_id
  execution :=
    { workflow_id := version.workflow_id, workflow_version_id, status := .CREATED
      input_payload }
  nodes := { keys := version.definition.node_ids, row := initial_node version.definition }
  now := now

/-- `ExecutionEngine.start_execution` up to its first commit: the session, and
the ids to publish. -/
def start_execution (env : Env) (workflow_version_id : ℕ) (input_payload : Option JsonObject)
    (owner_api_key_id execution_id now : ℕ) : Except PyError (Session × List String) :=
  match env.versions workflow_version_id with
  | none => .error (.app
      { message := "Workflow version not found", code := "not_found", status_code := 404 })
  | some version =>
    if version.owner_api_key_id ≠ owner_api_key_id then
      .error (.app
        { message := "Unauthorized access to workflow", code := "unauthorized",
          status_code := 403 })
    else
      match validate_workflow version.definition env.registry with
      | .error e => .error (.app e)
      | .ok validation => do
        let s := new_session version workflow_version_id execution_id now input_payload
        let s ← transition_execution_status (execution_started s) .CREATED .RUNNING
        let s ← queue_roots validation.root_nodes version.definition.node_ids s
        return (s, version.definition.node_ids.filter fun n => n ∈ validation.root_nodes)

/-- The rows a session has inserted. -/
def Session.inserted (s : Session) : ExecutionRows where
  execution := s.execution
  nodes := s.nodes
  dead_letter_jobs := s.new_dead_letter_jobs
  logs := s.new_logs

/-! ## `retry_node` and `delete_execution` -/

/-- `Workflow.owner_api_key_id` of an execution. -/
def Env.owner (env : Env) (execution : Execution) : Option ℕ :=
  (env.versions execution.workflow_version_id).map WorkflowVersion.owner_api_key_id

/-- The unresolved dead-letter rows of a node. -/
def unresolved (jobs : List DeadLetterJob) (node_id : String) : List DeadLetterJob :=
  jobs.filter fun job => decide (job.node_id = node_id ∧ job.resolved_at = none)

/-- `dlq_job.resolved_at = now`, if there is one. -/
def resolve_jobs (jobs : List DeadLetterJob) (node_id : String) (now : ℕ) :
    List DeadLetterJob :=
  jobs.map fun job =>
    if job.node_id = node_id ∧ job.resolved_at = none then
      { job with resolved_at := some now, resolution_note := some "Manually retried via API" }
    else job

/-- `ExecutionEngine.retry_node` up to its first commit: the session and the
dead-letter rows. `s` is a session that has just loaded the rows. -/
def retry_node (env : Env) (s : Session) (jobs : List DeadLetterJob) (node_id : String)
    (owner_api_key_id : ℕ) : Except PyError (Session × List DeadLetterJob) :=
  match s.nodes.get? node_id with
  | none => .error (.app
      { message := "NodeExecution not found", code := "not_found", status_code := 404 })
  | some node =>
    if env.owner s.execution ≠ some owner_api_key_id then
      .error (.app
        { message := "NodeExecution not found", code := "not_found", status_code := 404 })
    else if node.status ≠ .DEAD_LETTERED then
      .error (.app
        { message := "Cannot retry node in " ++ node.status.name ++
            " state. Must be DEAD_LETTERED.",
          code := "invalid_state" })
    else do
      let s ← transition_node_status s node_id .DEAD_LETTERED .QUEUED
      -- `scalar_one_or_none` refuses a second unresolved row
      if 2 ≤ (unresolved jobs node_id).length then .error .multiple_results_found
      else return (s, resolve_jobs jobs node_id s.now)

/-- Whether `delete_execution` finds the execution. -/
def delete_execution (env : Env) (execution : Execution) (owner_api_key_id : ℕ) : Bool :=
  env.owner execution = some owner_api_key_id

/-! ## What the commands do -/

/-- The roots loop queues the PENDING roots of its list and nothing else. By induction on
the list of ids that are still to be looked at. They are distinct, so the transition of
one leaves the others PENDING, and none of the transitions raises. -/
theorem queue_roots_spec (roots : List String) {ids : List String} (hnodup : ids.Nodup)
    (s : Session) (hopen : ∀ n ∈ ids, Open s.nodes n) :
    ∃ s', queue_roots roots ids s = .ok s' ∧ SameButNodes s s' ∧
      (∀ n ∈ ids, n ∈ roots → s'.nodes.row n = (s.nodes.row n).enter .QUEUED s.now) ∧
      (∀ n, ¬ (n ∈ ids ∧ n ∈ roots) → s'.nodes.row n = s.nodes.row n) := by
  induction ids generalizing s with
  | nil => exact ⟨s, rfl, .refl s, by simp, fun _ _ => rfl⟩
  | cons n ids ih =>
      obtain ⟨hn, hnodup'⟩ := List.nodup_cons.mp hnodup
      have hopen' := fun m hm => hopen m (List.mem_cons_of_mem n hm)
      by_cases hroot : n ∈ roots
      · obtain ⟨hkey, hpend⟩ := hopen n List.mem_cons_self
        obtain ⟨s1, htr, hsame1, hnodes⟩ :=
          transition_node_status_total .QUEUED (Table.get?_of_mem hkey) hpend rfl
        have hne : ∀ m ∈ ids, m ≠ n := fun m hm h => hn (h ▸ hm)
        obtain ⟨s2, hrun, hsame2, hq, hkeep⟩ := ih hnodup' s1 (by
          intro m hm
          rw [hnodes, open_set (by simp)]
          exact ⟨hopen' m hm, hne m hm⟩)
        refine ⟨s2, ?_, hsame1.trans hsame2, ?_, ?_⟩
        · simp only [queue_roots, if_pos hroot, htr, bind, Except.bind, hrun]
        · intro m hm hmr
          rcases List.mem_cons.mp hm with rfl | hm
          · rw [hkeep m fun h => hn h.1, hnodes, Table.row_set_self]
          · rw [hq m hm hmr, hnodes, Table.row_set_of_ne _ _ (hne m hm),
              hsame1.steps.sameFrame.now]
        · intro m hm
          rw [hkeep m fun h => hm ⟨List.mem_cons_of_mem _ h.1, h.2⟩, hnodes,
            Table.row_set_of_ne]
          rintro rfl
          exact hm ⟨List.mem_cons_self, hroot⟩
      · obtain ⟨s2, hrun, hsame2, hq, hkeep⟩ := ih hnodup' s hopen'
        refine ⟨s2, ?_, hsame2, ?_, ?_⟩
        · simp only [queue_roots, if_neg hroot, hrun]
        · intro m hm hmr
          rcases List.mem_cons.mp hm with rfl | hm
          · exact absurd hmr hroot
          · exact hq m hm hmr
        · intro m hm
          exact hkeep m fun h => hm ⟨List.mem_cons_of_mem _ h.1, h.2⟩

@[simp] theorem initial_node_status (d : WorkflowDefinition) (n : String) :
    (initial_node d n).status = .PENDING := by
  unfold initial_node
  split <;> rfl

@[simp] theorem initial_node_attempt (d : WorkflowDefinition) (n : String) :
    (initial_node d n).attempt = 0 := by
  unfold initial_node
  split <;> rfl

@[simp] theorem initial_node_output (d : WorkflowDefinition) (n : String) :
    (initial_node d n).output_payload = none := by
  unfold initial_node
  split <;> rfl

/-- Every node may be tried at least once. -/
theorem initial_node_max_attempts (d : WorkflowDefinition) (n : String) :
    1 ≤ (initial_node d n).max_attempts := by
  unfold initial_node
  split
  · exact (resolve_retry_policy _ d).max_attempts_ge
  · exact le_refl 1

/-- **What `start_execution` commits**: an accepted definition, the execution RUNNING, the
nodes without parents QUEUED at attempt 1 and published, all others PENDING. The facts are
read off branch by branch. After the checks come the transition of the execution row from
CREATED to RUNNING and the loop over the roots ([`queue_roots_spec`]); the events that
these stage are about nodes and about RUNNING, hence none of them is terminal. -/
theorem start_execution_spec {env : Env} {vid owner eid now : ℕ} {input : Option JsonObject}
    {s : Session} {pubs : List String}
    (h : start_execution env vid input owner eid now = .ok (s, pubs)) :
    ∃ version, env.versions vid = some version ∧ Accepted env.registry version.definition ∧
      Session.Steps (new_session version vid eid now input) s ∧
      s.nodes.keys = version.definition.node_ids ∧
      s.execution.status = .RUNNING ∧ s.execution.finished_at = none ∧
      s.execution.workflow_version_id = vid ∧ s.execution.input_payload = input ∧
      s.new_dead_letter_jobs = [] ∧ terminal_events s.ws_events = [] ∧
      pubs = version.definition.node_ids.filter
        (fun n => decide (version.definition.parent_ids n = [])) ∧
      (∀ n ∈ pubs, s.nodes.row n = (initial_node version.definition n).enter .QUEUED now) ∧
      (∀ n ∉ pubs, s.nodes.row n = initial_node version.definition n) := by
  unfold start_execution at h
  split at h
  · cases h
  rename_i version hversion
  split at h
  · cases h
  split at h
  · cases h
  rename_i validation hval
  obtain ⟨hwf, -, hroots⟩ := validate_workflow_spec hval
  -- the session by stages: its new rows, the execution RUNNING, the roots QUEUED
  obtain ⟨s1, hs1⟩ : ∃ s1, s1 = new_session version vid eid now input := ⟨_, rfl⟩
  have hcreated : (execution_started s1).execution.status = .CREATED := by rw [hs1]; rfl
  have htr := transition_execution_status_of_status .RUNNING hcreated
  obtain ⟨s2, hs2⟩ : ∃ s2, transition_execution_status (execution_started s1) .CREATED
      .RUNNING = .ok s2 := ⟨_, htr⟩
  have hs2eq := hs2.symm.trans htr
  rw [Except.ok.injEq] at hs2eq
  have hnodes2 : s2.nodes = s1.nodes := by rw [hs2eq]; rfl
  have hnow2 : s2.now = now := by rw [hs2eq, hs1]; rfl
  have hopen : ∀ n ∈ version.definition.node_ids, Open s2.nodes n := by
    intro n hn
    rw [hnodes2, hs1]
    exact ⟨hn, initial_node_status _ n⟩
  obtain ⟨s3, hrun, hsame3, hq, hkeep⟩ :=
    queue_roots_spec validation.root_nodes hwf.nodup s2 hopen
  simp only [bind, Except.bind, ← hs1, hs2, hrun, pure, Except.pure, Except.ok.injEq,
    Prod.mk.injEq] at h
  obtain ⟨rfl, rfl⟩ := h
  -- the loop goes over the nodes and tests whether one is among the roots
  have hpubs : (version.definition.node_ids.filter fun n => decide (n ∈ validation.root_nodes))
      = version.definition.node_ids.filter
        (fun n => decide (version.definition.parent_ids n = [])) := by
    refine List.filter_congr fun n hn => ?_
    rw [hroots, decide_eq_decide, List.mem_filter, decide_eq_true_eq]
    exact and_iff_right hn
  have hrow : ∀ n, s2.nodes.row n = initial_node version.definition n := by
    intro n
    rw [hnodes2, hs1]
    rfl
  refine ⟨version, hversion, ⟨validation, hval⟩, ?_, ?_, ?_, ?_, ?_, ?_, ?_, ?_, hpubs, ?_, ?_⟩
  · rw [← hs1]
    exact ((Relation.ReflTransGen.single (.log ..)).tail
      (.transition_execution _ _ hs2)).trans hsame3.steps
  · rw [hsame3.steps.sameFrame.keys, hnodes2, hs1]
    rfl
  · rw [hsame3.execution, hs2eq]
    simp
  · rw [hsame3.execution, hs2eq, hs1]
    rfl
  · rw [hsame3.execution, hs2eq, hs1]
    rfl
  · rw [hsame3.execution, hs2eq, hs1]
    rfl
  · rw [hsame3.new_dead_letter_jobs, hs2eq, hs1]
    rfl
  · rw [hsame3.terminal_events, hs2eq, hs1]
    rfl
  · intro n hn
    obtain ⟨h1, h2⟩ := List.mem_filter.mp hn
    rw [hq n h1 (by simpa using h2), hrow, hnow2]
  · intro n hn
    rw [hkeep n fun h => hn (List.mem_filter.mpr ⟨h.1, by simpa using h.2⟩), hrow]

/-- The version exists, belongs to the caller and validates. -/
def Startable (env : Env) (vid owner : ℕ) : Prop :=
  ∃ version, env.versions vid = some version ∧ version.owner_api_key_id = owner ∧
    Accepted env.registry version.definition

/-- **When `start_execution` succeeds.** Past its checks nothing raises, and the checks do
not look at the payload. To the right, the branches before the checks have passed all end
in an error. To the left, the transitions that remain find the statuses they need, since
the rows are new ([`queue_roots_spec`]). -/
theorem start_execution_ok_iff {env : Env} {vid owner eid now : ℕ} {input : Option JsonObject} :
    (∃ s pubs, start_execution env vid input owner eid now = .ok (s, pubs)) ↔
      Startable env vid owner := by
  constructor
  · rintro ⟨s, pubs, h⟩
    obtain ⟨version, hversion, haccepted, -⟩ := start_execution_spec h
    refine ⟨version, hversion, ?_, haccepted⟩
    by_contra howner
    unfold start_execution at h
    rw [hversion] at h
    dsimp only at h
    rw [if_pos howner] at h
    cases h
  · rintro ⟨version, hversion, howner, validation, hval⟩
    obtain ⟨hwf, -, -⟩ := validate_workflow_spec hval
    obtain ⟨s₁, hs₁⟩ : ∃ s₁, transition_execution_status
        (execution_started (new_session version vid eid now input)) .CREATED .RUNNING = .ok s₁ :=
      ⟨_, transition_execution_status_of_status .RUNNING rfl⟩
    have hnodes : s₁.nodes = (new_session version vid eid now input).nodes := by
      obtain ⟨-, rfl⟩ := transition_execution_status_ok hs₁
      rfl
    obtain ⟨s₂, hs₂, -⟩ := queue_roots_spec validation.root_nodes hwf.nodup s₁ (by
      intro n hn
      rw [hnodes]
      exact ⟨hn, initial_node_status _ n⟩)
    unfold start_execution
    rw [hversion]
    dsimp only
    rw [if_neg (not_not.mpr howner), hval]
    simp only [bind, Except.bind, hs₁, hs₂]
    exact ⟨_, _, rfl⟩

/-- Whatever `start_execution` raises is an `AppError`. -/
theorem start_execution_error {env : Env} {vid owner eid now : ℕ} {input : Option JsonObject}
    {err : PyError} (h : start_execution env vid input owner eid now = .error err) :
    ∃ error, err = .app error := by
  have hnot : ¬ Startable env vid owner := by
    intro hstartable
    obtain ⟨s, pubs, hok⟩ := start_execution_ok_iff.mpr hstartable
    rw [hok] at h
    cases h
  unfold start_execution at h
  split at h
  · cases h
    exact ⟨_, rfl⟩
  · rename_i version hversion
    split at h
    · cases h
      exact ⟨_, rfl⟩
    · rename_i howner
      split at h
      · cases h
        exact ⟨_, rfl⟩
      · rename_i validation hval
        exact absurd ⟨version, hversion, not_not.mp howner, validation, hval⟩ hnot

/-- The roots loop writes no logs. -/
theorem queue_roots_new_logs {roots ids : List String} {s s' : Session}
    (h : queue_roots roots ids s = .ok s') : s'.new_logs = s.new_logs := by
  induction ids generalizing s with
  | nil =>
      cases h
      rfl
  | cons n ids ih =>
      unfold queue_roots at h
      split at h
      · simp only [bind, Except.bind] at h
        split at h
        · cases h
        · rename_i s₁ htr
          obtain ⟨node, -, -, rfl⟩ := transition_node_status_ok htr
          have hlogs := ih h
          exact hlogs
      · exact ih h

/-- The one log of `start_execution` names no node. -/
theorem start_execution_new_logs {env : Env} {vid owner eid now : ℕ} {input : Option JsonObject}
    {s : Session} {pubs : List String}
    (h : start_execution env vid input owner eid now = .ok (s, pubs)) :
    ∀ log ∈ s.new_logs, log.node_id = none := by
  unfold start_execution at h
  split at h
  · cases h
  split at h
  · cases h
  split at h
  · cases h
  simp only [bind, Except.bind] at h
  split at h
  · cases h
  rename_i s₁ hs₁
  split at h
  · cases h
  rename_i s₂ hs₂
  cases h
  obtain ⟨-, rfl⟩ := transition_execution_status_ok hs₁
  rw [queue_roots_new_logs hs₂]
  intro log hlog
  rw [List.mem_singleton.mp hlog]

section Retry

variable {env : Env} {s : Session} {n : String} {owner : ℕ}

/-- A node that `retry_node` accepts. -/
def Retryable (env : Env) (s : Session) (n : String) (owner : ℕ) : Prop :=
  ∃ node, s.nodes.get? n = some node ∧ env.owner s.execution = some owner ∧
    node.status = .DEAD_LETTERED

/-- Past the checks only a second unresolved dead letter is in the way. -/
theorem retry_node_of_retryable (jobs : List DeadLetterJob) (h : Retryable env s n owner) :
    ∃ s', transition_node_status s n .DEAD_LETTERED .QUEUED = .ok s' ∧ SameButNodes s s' ∧
      s'.nodes = s.nodes.set n ((s.nodes.row n).enter .QUEUED s.now) ∧
      retry_node env s jobs n owner = if 2 ≤ (unresolved jobs n).length then
        .error .multiple_results_found else .ok (s', resolve_jobs jobs n s.now) := by
  obtain ⟨node, hget, howner, hst⟩ := h
  obtain ⟨s', htr, hsame, hnodes⟩ := transition_node_status_total .QUEUED hget hst rfl
  obtain ⟨-, rfl⟩ := Table.get?_eq_some_iff.mp hget
  refine ⟨s', htr, hsame, hnodes, ?_⟩
  unfold retry_node
  rw [hget]
  dsimp only
  rw [if_neg (not_not.mpr howner), if_neg (not_not.mpr hst), htr, ← hsame.steps.sameFrame.now]
  rfl

/-- Every other node is refused with an `AppError`. -/
theorem retry_node_of_not_retryable (jobs : List DeadLetterJob)
    (h : ¬ Retryable env s n owner) :
    ∃ error : AppError, retry_node env s jobs n owner = .error (.app error) := by
  unfold retry_node
  cases hget : s.nodes.get? n with
  | none => exact ⟨_, rfl⟩
  | some node =>
      dsimp only
      by_cases howner : env.owner s.execution = some owner
      · rw [if_neg (not_not.mpr howner)]
        by_cases hst : node.status = .DEAD_LETTERED
        · exact absurd ⟨node, hget, howner, hst⟩ h
        · rw [if_pos hst]
          exact ⟨_, rfl⟩
      · rw [if_pos howner]
        exact ⟨_, rfl⟩

/-- What `retry_node` has checked and done when it returns. -/
theorem retry_node_ok {s' : Session} {jobs jobs' : List DeadLetterJob}
    (h : retry_node env s jobs n owner = .ok (s', jobs')) :
    Retryable env s n owner ∧ transition_node_status s n .DEAD_LETTERED .QUEUED = .ok s' ∧
      SameButNodes s s' ∧ s'.nodes = s.nodes.set n ((s.nodes.row n).enter .QUEUED s.now) ∧
      jobs' = resolve_jobs jobs n s.now := by
  have hretry : Retryable env s n owner := by
    by_contra hnot
    obtain ⟨error, herror⟩ := retry_node_of_not_retryable jobs hnot
    rw [h] at herror
    cases herror
  obtain ⟨s₁, htr, hsame, hnodes, hrun⟩ := retry_node_of_retryable jobs hretry
  rw [hrun] at h
  split at h
  · cases h
  · cases h
    exact ⟨hretry, htr, hsame, hnodes, rfl⟩

/-- **What `retry_node` commits**: one DEAD_LETTERED node back in the queue at its next
attempt, and nothing about the execution row. The row is found before the transition and
is the only one written; the status DEAD_LETTERED is checked, so the transition to QUEUED
is one that is allowed. -/
theorem retry_node_spec {s' : Session} {jobs jobs' : List DeadLetterJob}
    (h : retry_node env s jobs n owner = .ok (s', jobs')) :
    ∃ node, s.nodes.get? n = some node ∧ node.status = .DEAD_LETTERED ∧ SameButNodes s s' ∧
      s'.nodes = s.nodes.set n (node.enter .QUEUED s.now) ∧
      jobs' = resolve_jobs jobs n s.now := by
  obtain ⟨⟨node, hget, -, hst⟩, -, hsame, hnodes, hjobs⟩ := retry_node_ok h
  obtain ⟨-, rfl⟩ := Table.get?_eq_some_iff.mp hget
  exact ⟨_, hget, hst, hsame, hnodes, hjobs⟩

end Retry

end EventFlow
