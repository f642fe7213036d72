/-
What one step of the system can do.

[`Effect`] has one constructor for each way an action can go, with the state it
leaves in closed form: which rows are written and to what, where the task goes
and what it has staged. [`effect_of_act`] is the inversion: whatever `act`
returns is one of these. Every invariant of the later modules is proved by a
case analysis on `Effect`, or on one of its projections in `SystemSpec.lean`,
and never opens a function of the model again.

The inversion of a completion needs that the definition the worker looks up is
the one the rows were created from. That is [`Sys.Typed`], which holds in every
reachable state for every alphabet.
-/
import EventFlow.System

set_option autoImplicit false

namespace EventFlow

/-! ## What the sessions of a step commit -/

section Commit

variable {rows : ExecutionRows} {e now : ℕ} {session : Session}

/-- A commit column by column, for a session that leaves the execution alone
and adds no dead-letter row. -/
theorem commit_eq {loaded : Session} (hexec : session.execution = loaded.execution)
    (hdead : session.new_dead_letter_jobs = []) :
    rows.commit loaded session = { rows with
      nodes := (rows.commit loaded session).nodes, logs := rows.logs ++ session.new_logs } := by
  have h : (rows.commit loaded session).execution = rows.execution :=
    commit_execution_of_same hexec
  conv_rhs => rw [← h, ← List.append_nil rows.dead_letter_jobs, ← hdead]
  rfl

/-- A unit of work on current rows that leaves the execution alone. -/
theorem commit_of_sameButNodes (h : SameButNodes (rows.load e now) session) :
    rows.commit (rows.load e now) session
      = { rows with nodes := session.nodes, logs := rows.logs ++ session.new_logs } := by
  have hnodes : (rows.commit (rows.load e now) session).nodes = session.nodes :=
    commit_nodes_of_loaded h.steps.sameFrame rfl
  rw [commit_eq h.execution h.new_dead_letter_jobs, hnodes]

theorem NodeExecution.revert_of_ne {node : NodeExecution} (h : node.status ≠ .RUNNING) :
    node.revert = node := if_neg h

theorem NodeExecution.revert_frame (node : NodeExecution) :
    node.revert.node_type = node.node_type ∧ node.revert.max_attempts = node.max_attempts ∧
      node.revert.redis_message_id = node.redis_message_id := by
  unfold NodeExecution.revert
  split <;> exact ⟨rfl, rfl, rfl⟩

/-- The override of recovery is gone once the node has been started again. -/
theorem NodeExecution.revert_enter_running (node : NodeExecution) :
    node.revert.enter .RUNNING now = node.enter .RUNNING now := by
  unfold NodeExecution.revert
  split <;> rfl

/-- Recovery's own write, and whatever follows it in its session. -/
theorem commit_of_revert {n : String} (hkey : n ∈ rows.nodes.keys)
    (h : SameButNodes ((rows.load e now).set_node n (rows.nodes.row n).revert) session) :
    rows.commit (rows.load e now) session
      = { rows with nodes := session.nodes, logs := rows.logs ++ session.new_logs } := by
  obtain ⟨htype, hmax, hmsg⟩ := (rows.nodes.row n).revert_frame
  have hget : (rows.load e now).nodes.get? n = some (rows.nodes.row n) := Table.get?_of_mem hkey
  have hframe := (Session.SameFrame.set_node hget htype hmax hmsg).trans h.steps.sameFrame
  have hnodes : (rows.commit (rows.load e now) session).nodes = session.nodes :=
    commit_nodes_of_loaded hframe rfl
  have hexec : session.execution = (rows.load e now).execution := h.execution
  rw [commit_eq hexec h.new_dead_letter_jobs, hnodes]

/-- A session that holds `cached` as its instance of `n` writes the columns in
which `node` differs from it, over whatever the row is by then. -/
theorem commit_of_cached {n : String} {cached node : NodeExecution}
    (hexec : session.execution = rows.execution) (hdead : session.new_dead_letter_jobs = [])
    (hnodes : session.nodes = rows.nodes.set n node) :
    rows.commit { rows.load e now with nodes := rows.nodes.set n cached } session
      = { rows with
          nodes := rows.nodes.set n (cached.flush node (rows.nodes.row n))
          logs := rows.logs ++ session.new_logs } := by
  rw [commit_eq hexec hdead]
  have hrow : ∀ m, ((rows.nodes.set n cached).row m).flush (session.nodes.row m)
      (rows.nodes.row m)
      = (rows.nodes.set n (cached.flush node (rows.nodes.row n))).row m := by
    intro m
    rw [hnodes]
    by_cases hm : m = n
    · subst hm
      simp only [Table.row_set_self]
    · simp only [Table.row_set_of_ne _ _ hm, NodeExecution.flush_untouched]
  simp only [ExecutionRows.commit, hrow]
  rfl

end Commit

/-! ## Rows and the definitions they belong to -/

/-- The rows of an execution belong to an accepted definition of `env`. -/
def ExecutionRows.Of (env : Env) (rows : ExecutionRows) (d : WorkflowDefinition) : Prop :=
  (∃ version, env.versions rows.execution.workflow_version_id = some version ∧
    version.definition = d) ∧ Accepted env.registry d ∧ rows.nodes.keys = d.node_ids

/-- The executions a phase names. -/
def Phase.execution_ids : Phase → List ℕ
  | .idle => []
  | .recovered _ job _ => [job.execution_id]
  | .claimed _ job _ => [job.execution_id]
  | .invoked _ context _ => [context.execution_id]
  | .publishing _ e owed _ => e :: owed.map Job.execution_id
  | .returning _ => []

/-- Every stored execution belongs to an accepted definition, and nothing names
an execution that has not been created. -/
structure Sys.Typed (env : Env) (s : Sys) : Prop where
  rows : ∀ e rows, s.executions e = some rows → ∃ d, rows.Of env d
  fresh : ∀ e, s.next_execution_id ≤ e → s.executions e = none
  stream : ∀ entry ∈ s.stream, entry.job.execution_id < s.next_execution_id
  tasks : ∀ t, ∀ e ∈ (s.tasks t).phase.execution_ids, e < s.next_execution_id

theorem ExecutionRows.Of.wellFormed {env : Env} {rows : ExecutionRows} {d : WorkflowDefinition}
    (h : rows.Of env d) : WellFormed d := h.2.1.wellFormed

theorem ExecutionRows.Of.unique {env : Env} {rows : ExecutionRows} {d d' : WorkflowDefinition}
    (h : rows.Of env d) (h' : rows.Of env d') : d = d' := by
  obtain ⟨⟨v, hv, rfl⟩, -, -⟩ := h
  obtain ⟨⟨v', hv', rfl⟩, -, -⟩ := h'
  rw [hv, Option.some.injEq] at hv'
  rw [hv']

/-- Rows with the same version and the same keys belong to the same
definition. -/
theorem ExecutionRows.Of.congr {env : Env} {rows rows' : ExecutionRows} {d : WorkflowDefinition}
    (h : rows.Of env d)
    (hv : rows'.execution.workflow_version_id = rows.execution.workflow_version_id)
    (hk : rows'.nodes.keys = rows.nodes.keys) : rows'.Of env d :=
  ⟨hv ▸ h.1, h.2.1, hk ▸ h.2.2⟩

/-- A worker looks up the definition of the rows. -/
theorem lookup_eq_some {env : Env} {rows : ExecutionRows} {n : String} {d : WorkflowDefinition}
    {node_def : Node} (h : Sys.lookup env rows n = some (d, node_def)) :
    (∃ version, env.versions rows.execution.workflow_version_id = some version ∧
      version.definition = d) ∧ d.node_def_by_id n = some node_def := by
  unfold Sys.lookup at h
  obtain ⟨version, hversion, h⟩ := Option.bind_eq_some_iff.mp h
  obtain ⟨found, hfound, heq⟩ := Option.map_eq_some_iff.mp h
  cases heq
  exact ⟨⟨version, hversion, rfl⟩, hfound⟩

theorem ExecutionRows.Of.lookup {env : Env} {rows : ExecutionRows} {d d' : WorkflowDefinition}
    {n : String} {node_def : Node} (h : rows.Of env d)
    (hl : Sys.lookup env rows n = some (d', node_def)) :
    d' = d ∧ d.node_def_by_id n = some node_def := by
  obtain ⟨⟨version, hversion, rfl⟩, hfound⟩ := lookup_eq_some hl
  obtain ⟨⟨v, hv, rfl⟩, -, -⟩ := h
  rw [hv, Option.some.injEq] at hversion
  subst hversion
  exact ⟨rfl, hfound⟩

/-! ## The effect of an action -/

/-- Nothing is left to do for a job: its rows are gone, or its node is
terminal. -/
def Sys.Gone (s : Sys) (job : Job) : Prop :=
  s.executions job.execution_id = none ∨
    ∃ rows, s.executions job.execution_id = some rows ∧
      (job.node_id ∉ rows.nodes.keys ∨
        (rows.nodes.row job.node_id).status ∈ TERMINAL_NODE_STATUSES)

/-- A phase that still owes a publish. -/
def Phase.owes : Phase → List Job
  | .publishing _ _ owed _ => owed
  | _ => []

/-- A phase that is entered with nothing staged and stages nothing. -/
def Phase.silent : Phase → Bool
  | .idle => true
  | .invoked .. => true
  | _ => false

/-- Task `t` owes no publish, and has no event to flush about an execution that
is still stored. -/
def Sys.Dry (s : Sys) (t : ℕ) : Prop :=
  (s.tasks t).phase.owes = [] ∧
    ((s.tasks t).phase.silent = true ∨ (s.tasks t).ws_events = [] ∨
      ∃ msg e sent, (s.tasks t).phase = .publishing msg e [] sent ∧ s.executions e = none)

/-- The ways an action can go. -/
inductive Effect (env : Env) (s : Sys) : Action → Sys → Prop
  /-- A command raises or finds nothing. -/
  | refused {a : Action} :
      ((∃ t v i o, a = .start t v i o) ∨ (∃ t e n o, a = .retry t e n o) ∨
        ∃ e o, a = .delete e o) → Effect env s a s
  | start {t vid owner : ℕ} {input : Option JsonObject} {session : Session}
      {pubs : List String} (hidle : (s.tasks t).phase = .idle)
      (h : start_execution env vid input owner s.next_execution_id s.clock
        = .ok (session, pubs)) :
      Effect env s (.start t vid input owner)
        { s.commit t s.next_execution_id session.inserted session.ws_events
            (.publishing none s.next_execution_id (Sys.jobs_of session pubs) []) with
          next_execution_id := s.next_execution_id + 1 }
  | retry {t e owner : ℕ} {n : String} {rows : ExecutionRows} {session : Session}
      (hidle : (s.tasks t).phase = .idle) (hrows : s.executions e = some rows)
      (hkey : n ∈ rows.nodes.keys) (hst : (rows.nodes.row n).status = .DEAD_LETTERED)
      (hsame : SameButNodes (rows.load e s.clock) session)
      (hnodes : session.nodes = rows.nodes.set n ((rows.nodes.row n).enter .QUEUED s.clock)) :
      Effect env s (.retry t e n owner)
        (s.commit t e
          { rows with
            nodes := rows.nodes.set n ((rows.nodes.row n).enter .QUEUED s.clock)
            dead_letter_jobs := resolve_jobs rows.dead_letter_jobs n s.clock
            logs := rows.logs ++ session.new_logs }
          session.ws_events (.publishing none e (Sys.jobs_of session [n]) []))
  | delete {e owner : ℕ} :
      Effect env s (.delete e owner)
        { s with executions := Function.update s.executions e none }
  /-- A delivered message is not worth running. -/
  | discard {a : Action} {t m : ℕ} {entry : StreamEntry}
      (ha : a = .claim t m ∨ a = .recover t m ∨ a = .recover_claim t m)
      (hidle : (s.tasks t).phase = .idle) (hentry : s.stream[m]? = some entry)
      (hgone : s.Gone entry.job) : Effect env s a (s.park t (.returning (some m)))
  /-- The same, with the recovery logged. -/
  | discard_logged {a : Action} {t m : ℕ} {entry : StreamEntry} {rows : ExecutionRows}
      {session : Session} (ha : a = .recover t m ∨ a = .recover_claim t m)
      (hidle : (s.tasks t).phase = .idle) (hentry : s.stream[m]? = some entry)
      (hrows : s.executions entry.job.execution_id = some rows)
      (hst : (rows.nodes.row entry.job.node_id).status ∈ TERMINAL_NODE_STATUSES)
      (hsame : SameButNodes (rows.load entry.job.execution_id s.clock) session)
      (hnodes : session.nodes = rows.nodes) :
      Effect env s a
        (s.commit t entry.job.execution_id { rows with logs := rows.logs ++ session.new_logs }
          session.ws_events (.returning (some m)))
  /-- A node is started, for the first time in this attempt or again. -/
  | claim {a : Action} {t m : ℕ} {entry : StreamEntry} {rows : ExecutionRows}
      {session : Session}
      (ha : a = .claim t m ∧ (rows.nodes.row entry.job.node_id).status = .QUEUED ∨
        a = .recover_claim t m ∧
          ((rows.nodes.row entry.job.node_id).status = .QUEUED ∨
            (rows.nodes.row entry.job.node_id).status = .RUNNING))
      (hidle : (s.tasks t).phase = .idle) (hentry : s.stream[m]? = some entry)
      (hrows : s.executions entry.job.execution_id = some rows)
      (hkey : entry.job.node_id ∈ rows.nodes.keys)
      (hsame : SameButNodes ((rows.load entry.job.execution_id s.clock).set_node
        entry.job.node_id (rows.nodes.row entry.job.node_id).revert) session)
      (hnodes : session.nodes = rows.nodes.set entry.job.node_id
        ((rows.nodes.row entry.job.node_id).enter .RUNNING s.clock)) :
      Effect env s a
        (s.commit t entry.job.execution_id
          { rows with
            nodes := rows.nodes.set entry.job.node_id
              ((rows.nodes.row entry.job.node_id).enter .RUNNING s.clock)
            logs := rows.logs ++ session.new_logs }
          session.ws_events
          (.claimed m entry.job (rows.nodes.row entry.job.node_id).attempt))
  /-- Recovery commits and its claim raises. -/
  | recover_raised {t m : ℕ} {entry : StreamEntry} {rows : ExecutionRows} {session : Session}
      (hidle : (s.tasks t).phase = .idle) (hentry : s.stream[m]? = some entry)
      (hrows : s.executions entry.job.execution_id = some rows)
      (hsame : SameButNodes (rows.load entry.job.execution_id s.clock) session)
      (hnodes : session.nodes = rows.nodes) :
      Effect env s (.recover_claim t m)
        { s.commit t entry.job.execution_id { rows with logs := rows.logs ++ session.new_logs }
            session.ws_events .idle with
          channel := s.channel ++ session.ws_events
          tasks := Function.update s.tasks t { phase := .idle } }
  /-- Recovery takes a message over and reverts its node. -/
  | recover {t m : ℕ} {entry : StreamEntry} {rows : ExecutionRows} {session : Session}
      (hidle : (s.tasks t).phase = .idle) (hentry : s.stream[m]? = some entry)
      (hrows : s.executions entry.job.execution_id = some rows)
      (hkey : entry.job.node_id ∈ rows.nodes.keys)
      (hst : (rows.nodes.row entry.job.node_id).status ∉ TERMINAL_NODE_STATUSES)
      (hsame : SameButNodes ((rows.load entry.job.execution_id s.clock).set_node
        entry.job.node_id (rows.nodes.row entry.job.node_id).revert) session) :
      Effect env s (.recover t m)
        (s.commit t entry.job.execution_id
          { rows with
            nodes := rows.nodes.set entry.job.node_id (rows.nodes.row entry.job.node_id).revert
            logs := rows.logs ++ session.new_logs }
          session.ws_events
          (.recovered m entry.job (rows.nodes.row entry.job.node_id).revert))
  /-- The claim of a recovered job, from the cached instance. -/
  | reclaim {t m : ℕ} {job : Job} {cached : NodeExecution} {rows : ExecutionRows}
      {session : Session} (htask : s.tasks t = ⟨.recovered m job cached, []⟩)
      (hrows : s.executions job.execution_id = some rows) (hkey : job.node_id ∈ rows.nodes.keys)
      (hst : cached.status = .QUEUED)
      (hsame : SameButNodes { rows.load job.execution_id s.clock with
        nodes := rows.nodes.set job.node_id cached } session) :
      Effect env s (.reclaim t)
        (s.commit t job.execution_id
          { rows with
            nodes := rows.nodes.set job.node_id
              (cached.flush (cached.enter .RUNNING s.clock) (rows.nodes.row job.node_id))
            logs := rows.logs ++ session.new_logs }
          session.ws_events (.claimed m job cached.attempt))
  | reclaim_discard {t m : ℕ} {job : Job} {cached : NodeExecution} {rows : ExecutionRows}
      (htask : s.tasks t = ⟨.recovered m job cached, []⟩)
      (hrows : s.executions job.execution_id = some rows)
      (hst : job.node_id ∉ rows.nodes.keys ∨ cached.status ∈ TERMINAL_NODE_STATUSES) :
      Effect env s (.reclaim t) (s.park t (.returning (some m)))
  /-- A task stops where it is. Unless it crashes or its publish fails, nothing
  is lost. -/
  | stop {a : Action} {t : ℕ} (ha : s.Dry t ∨ a = .crash t ∨ a = .publish_error t)
      (ht : a.task = some t) : Effect env s a (s.park t .idle)
  | invoke {t m attempt : ℕ} {job : Job} {rows : ExecutionRows} {d : WorkflowDefinition}
      {node_def : Node} (htask : s.tasks t = ⟨.claimed m job attempt, []⟩)
      (hrows : s.executions job.execution_id = some rows)
      (hlookup : Sys.lookup env rows job.node_id = some (d, node_def)) :
      Effect env s (.invoke t)
        (s.park t (.invoked m (build_context job.execution_id rows.execution rows.nodes d
          node_def job.node_id attempt) rows.execution))
  /-- A result comes too late. -/
  | stale {t m : ℕ} {result : ExecutorResult} {context : ExecutionContext}
      {execution : Execution} {rows : ExecutionRows}
      (hphase : (s.tasks t).phase = .invoked m context execution)
      (hrows : s.executions context.execution_id = some rows)
      (hst : (rows.nodes.row context.node_id).status ≠ .RUNNING) :
      Effect env s (.complete t result) (s.park t (.returning (some m)))
  | complete {t m : ℕ} {result : ExecutorResult} {context : ExecutionContext}
      {execution : Execution} {rows : ExecutionRows} {d : WorkflowDefinition}
      {node_def : Node} {session : Session} {pubs : List String}
      (hphase : (s.tasks t).phase = .invoked m context execution)
      (hrows : s.executions context.execution_id = some rows)
      (hlookup : Sys.lookup env rows context.node_id = some (d, node_def))
      (hsteps : Session.Steps (rows.refresh execution context.execution_id s.clock) session)
      (hends : Ends (rows.refresh execution context.execution_id s.clock) session)
      (hdone : Completed d node_def context.node_id result rows.nodes execution
        context.execution_id s.clock session pubs) :
      Effect env s (.complete t result)
        (s.commit t context.execution_id
          { execution := execution.flush session.execution rows.execution
            nodes := session.nodes
            dead_letter_jobs := rows.dead_letter_jobs ++ session.new_dead_letter_jobs
            logs := rows.logs ++ session.new_logs }
          session.ws_events
          (.publishing (some m) context.execution_id (Sys.jobs_of session pubs) []))
  | publish {t e : ℕ} {msg : Option ℕ} {job : Job} {owed : List Job}
      {sent : List (String × ℕ)} {events : List Envelope}
      (htask : s.tasks t = ⟨.publishing msg e (job :: owed) sent, events⟩) :
      Effect env s (.publish t)
        { s with
          stream := s.stream ++ [{ job }]
          tasks := Function.update s.tasks t
            ⟨.publishing msg e owed (sent ++ [(job.node_id, s.stream.length)]), events⟩ }
  | finish {t e : ℕ} {msg : Option ℕ} {sent : List (String × ℕ)} {events : List Envelope}
      {rows : ExecutionRows} (htask : s.tasks t = ⟨.publishing msg e [] sent, events⟩)
      (hrows : s.executions e = some rows) :
      Effect env s (.finish t)
        { s with
          executions := Function.update s.executions e
            (some { rows with nodes := Sys.set_message_ids rows.nodes sent })
          tasks := Function.update s.tasks t ⟨.returning msg, events⟩ }
  /-- The execution is gone and there was no message id to record. -/
  | finish_gone {t e : ℕ} {msg : Option ℕ} {events : List Envelope}
      (htask : s.tasks t = ⟨.publishing msg e [] [], events⟩)
      (hrows : s.executions e = none) :
      Effect env s (.finish t)
        { s with tasks := Function.update s.tasks t ⟨.returning msg, events⟩ }
  | flush {t : ℕ} {phase : Phase} {event : Envelope} {events : List Envelope}
      (htask : s.tasks t = ⟨phase, event :: events⟩) (hphase : Sys.Flushes phase = true) :
      Effect env s (.flush t)
        { s with
          channel := s.channel ++ [event]
          tasks := Function.update s.tasks t ⟨phase, events⟩ }
  | ack {t m : ℕ} (htask : s.tasks t = ⟨.returning (some m), []⟩) :
      Effect env s (.ack t) { s.park t .idle with stream := Sys.xack s.stream m }
  | reply {t : ℕ} (htask : s.tasks t = ⟨.returning none, []⟩) :
      Effect env s (.reply t) (s.park t .idle)

/-! ## Inversion -/

section Invert

variable {env : Env} {s s' : Sys}

theorem start_effect {t vid owner : ℕ} {input : Option JsonObject}
    (h : s.start env t vid input owner = some s') :
    Effect env s (.start t vid input owner) s' := by
  unfold Sys.start at h
  split at h
  · rename_i hidle
    split at h
    · cases h
      exact .refused (.inl ⟨_, _, _, _, rfl⟩)
    · rename_i session pubs hok
      cases h
      exact .start hidle hok
  · cases h

theorem retry_effect {t e owner : ℕ} {n : String}
    (h : s.retry env t e n owner = some s') : Effect env s (.retry t e n owner) s' := by
  unfold Sys.retry at h
  split at h
  · rename_i hidle
    split at h
    · cases h
      exact .refused (.inr (.inl ⟨_, _, _, _, rfl⟩))
    · rename_i rows hrows
      dsimp only at h
      split at h
      · cases h
        exact .refused (.inr (.inl ⟨_, _, _, _, rfl⟩))
      · rename_i session jobs hok
        cases h
        obtain ⟨node, hget, hst, hsame, hnodes, rfl⟩ := retry_node_spec hok
        obtain ⟨hkey, rfl⟩ := Table.get?_eq_some_iff.mp hget
        rw [commit_of_sameButNodes hsame, hnodes]
        exact .retry hidle hrows hkey hst hsame hnodes
  · cases h

theorem delete_effect {e owner : ℕ} (h : s.delete env e owner = some s') :
    Effect env s (.delete e owner) s' := by
  unfold Sys.delete at h
  split at h
  · cases h
    exact .refused (.inr (.inr ⟨_, _, rfl⟩))
  · split at h
    · cases h
      exact .delete
    · cases h
      exact .refused (.inr (.inr ⟨_, _, rfl⟩))

/-- A claim of current rows finds nothing to revert. -/
theorem sameButNodes_of_queued {rows : ExecutionRows} {e now : ℕ} {n : String}
    {session : Session} (hst : (rows.nodes.row n).status = .QUEUED)
    (h : SameButNodes (rows.load e now) session) :
    SameButNodes ((rows.load e now).set_node n (rows.nodes.row n).revert) session := by
  have hself : (rows.load e now).set_node n (rows.nodes.row n).revert = rows.load e now := by
    rw [NodeExecution.revert_of_ne (by simp [hst])]
    exact congrArg (fun t => { rows.load e now with nodes := t }) (Table.set_row _ _)
  rwa [hself]

/-- A claim, branch by branch: the execution is gone, the row is missing or terminal, the
transition raises, or the node is RUNNING and committed. In the last case the row was
QUEUED, so that the revert in the statement of the constructor changes nothing. -/
theorem claim_effect {t m : ℕ} (h : s.claim t m = some s') :
    Effect env s (.claim t m) s' := by
  unfold Sys.claim at h
  split at h
  · rename_i entry hidle hentry
    split at h
    · -- the execution has been deleted
      rename_i hrows
      cases h
      exact .discard (.inl rfl) hidle hentry (.inl hrows)
    · rename_i rows hrows
      dsimp only at h
      split at h
      · -- the row is missing or terminal
        rename_i hret
        cases h
        exact .discard (.inl rfl) hidle hentry
          (.inr ⟨rows, hrows, process_job_claim_returned hret⟩)
      · -- the node is not QUEUED, and the transition raises
        cases h
        exact .stop (.inl ⟨by rw [hidle]; rfl, .inl (by rw [hidle]; rfl)⟩) rfl
      · -- the claim is committed, and a claim starts no attempt
        rename_i session hok
        cases h
        obtain ⟨hkey, hst, hsame, hnodes⟩ := process_job_claim_committed hok
        have hatt : (session.nodes.row entry.job.node_id).attempt
            = (rows.nodes.row entry.job.node_id).attempt := by
          rw [hnodes, Table.row_set_self]
          rfl
        rw [commit_of_sameButNodes hsame, hatt, hnodes]
        exact .claim (.inl ⟨rfl, hst⟩) hidle hentry hrows hkey
          (sameButNodes_of_queued hst hsame) hnodes
  · cases h

/-- Logging a recovery, before anything else happens. -/
theorem worker_recovered_job_same {s : Session} {n : String} {m : ℕ} :
    SameButNodes s (worker_recovered_job s n m) := .log ..

/-- The first commit of a recovery: nothing to recover, a terminal node which is only
logged, or a node that is reverted if it was RUNNING. -/
theorem recover_effect {t m : ℕ} (h : s.recover t m = some s') :
    Effect env s (.recover t m) s' := by
  unfold Sys.recover at h
  split at h
  · rename_i entry hidle hentry
    split at h
    · rename_i hrows
      cases h
      exact .discard (.inr (.inl rfl)) hidle hentry (.inl hrows)
    · rename_i rows hrows
      dsimp only at h
      split at h
      · rename_i hmiss
        cases h
        exact .discard (.inr (.inl rfl)) hidle hentry
          (.inr ⟨rows, hrows, .inl (process_recovered_job_missing hmiss)⟩)
      · rename_i session hterm
        cases h
        obtain ⟨hkey, hst, rfl⟩ := process_recovered_job_terminal hterm
        rw [commit_of_sameButNodes worker_recovered_job_same]
        exact .discard_logged (.inl rfl) hidle hentry hrows hst worker_recovered_job_same rfl
      · -- a RUNNING row goes back to QUEUED, any other one stays as it is
        rename_i session hproc
        cases h
        obtain ⟨hkey, hst, hsame, hnodes⟩ := process_recovered_job_proceed hproc
        have hrow : session.nodes.row entry.job.node_id
            = (rows.nodes.row entry.job.node_id).revert := by
          rw [hnodes, Table.row_set_self]
          rfl
        rw [commit_of_revert hkey hsame, hrow, hnodes]
        exact .recover hidle hentry hrows hkey hst hsame
  · cases h

theorem reclaim_effect {t : ℕ} (h : s.reclaim t = some s') :
    Effect env s (.reclaim t) s' := by
  unfold Sys.reclaim at h
  split at h
  · rename_i m job cached htask
    have hdry : s.Dry t := ⟨by rw [htask]; rfl, .inr (.inl (by rw [htask]))⟩
    split at h
    · cases h
      exact .stop (.inl hdry) rfl
    · rename_i rows hrows
      dsimp only at h
      split at h
      · rename_i hret
        cases h
        refine .reclaim_discard htask hrows ((process_job_claim_returned hret).imp id ?_)
        simp
      · cases h
        exact .stop (.inl hdry) rfl
      · rename_i session hok
        cases h
        obtain ⟨hkey, hst, hsame, hnodes⟩ := process_job_claim_committed hok
        simp only [Table.row_set_self, Table.set_set] at hst hnodes
        -- the claim looks at the cached instance, so its attempt is the cached one
        have hatt : (session.nodes.row job.node_id).attempt = cached.attempt := by
          rw [hnodes, Table.row_set_self]
          rfl
        rw [commit_of_cached hsame.execution hsame.new_dead_letter_jobs hnodes, hatt]
        exact .reclaim htask hrows hkey hst hsame
  · cases h

/-- Both commits of a recovery at once. The second looks at the row that the first has
written. It cannot find it terminal, since the first has not; if it raises, the first
stands by itself, and then it has changed no row. -/
theorem recover_claim_effect {t m : ℕ} (h : s.recover_claim t m = some s') :
    Effect env s (.recover_claim t m) s' := by
  unfold Sys.recover_claim at h
  split at h
  · rename_i entry hidle hentry
    split at h
    · rename_i hrows
      cases h
      exact .discard (.inr (.inr rfl)) hidle hentry (.inl hrows)
    · rename_i rows hrows
      dsimp only at h
      split at h
      · rename_i hmiss
        cases h
        exact .discard (.inr (.inr rfl)) hidle hentry
          (.inr ⟨rows, hrows, .inl (process_recovered_job_missing hmiss)⟩)
      · rename_i session hterm
        cases h
        obtain ⟨hkey, hst, rfl⟩ := process_recovered_job_terminal hterm
        rw [commit_of_sameButNodes worker_recovered_job_same]
        exact .discard_logged (.inr rfl) hidle hentry hrows hst worker_recovered_job_same rfl
      · rename_i session hproc
        obtain ⟨hkey, hst, hsame, hnodes⟩ := process_recovered_job_proceed hproc
        have hrow : session.nodes.row entry.job.node_id
            = (rows.nodes.row entry.job.node_id).revert := by
          rw [hnodes, Table.row_set_self]
          rfl
        split at h
        · -- the reverted row is not terminal, so the claim does not return
          rename_i hret
          have hterm := (process_job_claim_returned hret).resolve_left (by rw [hnodes]; simpa)
          rw [hrow] at hterm
          unfold NodeExecution.revert at hterm
          split at hterm
          · simp [TERMINAL_NODE_STATUSES] at hterm
          · exact absurd hterm hst
        · -- the claim raises on a row that was neither QUEUED nor RUNNING
          rename_i hraised
          cases h
          obtain ⟨-, -, hnq⟩ := process_job_claim_raised hraised
          rw [hrow] at hnq
          have hrun : (rows.nodes.row entry.job.node_id).status ≠ .RUNNING := by
            intro hrun
            rw [NodeExecution.revert, if_pos hrun] at hnq
            exact hnq rfl
          have hself : (rows.load entry.job.execution_id s.clock).set_node entry.job.node_id
              (rows.nodes.row entry.job.node_id).revert
                = rows.load entry.job.execution_id s.clock := by
            rw [NodeExecution.revert_of_ne hrun]
            exact congrArg (fun t => { rows.load entry.job.execution_id s.clock with nodes := t })
              (Table.set_row _ _)
          change SameButNodes ((rows.load entry.job.execution_id s.clock).set_node _
            (rows.nodes.row entry.job.node_id).revert) _ at hsame
          rw [hself] at hsame
          have hnodes' : session.nodes = rows.nodes := by
            rw [hnodes]
            change rows.nodes.set _ (rows.nodes.row entry.job.node_id).revert = _
            rw [NodeExecution.revert_of_ne hrun, Table.set_row]
          rw [commit_of_sameButNodes hsame, hnodes']
          exact .recover_raised hidle hentry hrows hsame hnodes'
        · -- both commits together: the revert and the claim write one row
          rename_i session' hok
          cases h
          obtain ⟨-, hq, hsame', hnodes'⟩ := process_job_claim_committed hok
          rw [hrow, hsame.steps.sameFrame.now] at hnodes'
          change _ = session.nodes.set _ ((rows.nodes.row entry.job.node_id).revert.enter .RUNNING
            s.clock) at hnodes'
          rw [hnodes, NodeExecution.revert_enter_running, Table.set_set] at hnodes'
          have hatt : (session'.nodes.row entry.job.node_id).attempt
              = (rows.nodes.row entry.job.node_id).attempt := by
            rw [hnodes', Table.row_set_self]
            rfl
          have hst' : (rows.nodes.row entry.job.node_id).status = .QUEUED ∨
              (rows.nodes.row entry.job.node_id).status = .RUNNING := by
            by_cases hrun : (rows.nodes.row entry.job.node_id).status = .RUNNING
            · exact .inr hrun
            · rw [hrow, NodeExecution.revert_of_ne hrun] at hq
              exact .inl hq
          rw [commit_of_revert hkey (hsame.trans hsame'), hatt, hnodes']
          exact .claim (.inr ⟨rfl, hst'⟩) hidle hentry hrows hkey (hsame.trans hsame') hnodes'
  · cases h

theorem invoke_effect {t : ℕ} (h : s.invoke env t = some s') : Effect env s (.invoke t) s' := by
  unfold Sys.invoke at h
  split at h
  · rename_i m job attempt htask
    have hdry : s.Dry t := ⟨by rw [htask]; rfl, .inr (.inl (by rw [htask]))⟩
    split at h
    · cases h
      exact .stop (.inl hdry) rfl
    · rename_i rows hrows
      split at h
      · cases h
        exact .stop (.inl hdry) rfl
      · rename_i d node_def hlookup
        split at h
        · cases h
          exact .stop (.inl hdry) rfl
        · cases h
          exact .invoke htask hrows hlookup
  · cases h

/-- What an executor is invoked with. -/
theorem invoked_of_invoke {t m : ℕ} {context : ExecutionContext} {execution : Execution}
    (h : s.invoke env t = some s') (hphase : (s'.tasks t).phase = .invoked m context execution) :
    ∃ job attempt rows d node_def, s.tasks t = ⟨.claimed m job attempt, []⟩ ∧
      s.executions job.execution_id = some rows ∧
      Sys.lookup env rows job.node_id = some (d, node_def) ∧
      context = build_context job.execution_id rows.execution rows.nodes d node_def job.node_id
        attempt ∧ execution = rows.execution := by
  unfold Sys.invoke at h
  split at h
  · rename_i m₀ job attempt htask
    split at h
    · cases h
      simp [Sys.park] at hphase
    · rename_i rows hrows
      split at h
      · cases h
        simp [Sys.park] at hphase
      · rename_i d node_def hlookup
        split at h
        · cases h
          simp [Sys.park] at hphase
        · cases h
          simp only [Sys.park, Function.update_self, Phase.invoked.injEq] at hphase
          obtain ⟨rfl, rfl, rfl⟩ := hphase
          exact ⟨job, attempt, rows, d, node_def, htask, hrows, hlookup, rfl, rfl⟩
  · cases h

/-- A completion goes one of three ways: the task stops, the result comes too late, or it
is committed. That the definition which the worker looks up is the one the rows were
created from is what [`Sys.Typed`] is for. -/
theorem complete_cases {t : ℕ} {result : ExecutorResult} (htyped : s.Typed env)
    (h : s.complete env t result = some s') :
    s' = s.park t .idle ∨
    (∃ m context execution rows, (s.tasks t).phase = .invoked m context execution ∧
      s.executions context.execution_id = some rows ∧
      (rows.nodes.row context.node_id).status ≠ .RUNNING ∧
      s' = s.park t (.returning (some m))) ∨
    ∃ m context execution rows d node_def session pubs,
      (s.tasks t).phase = .invoked m context execution ∧
      s.executions context.execution_id = some rows ∧
      Sys.lookup env rows context.node_id = some (d, node_def) ∧
      Session.Steps (rows.refresh execution context.execution_id s.clock) session ∧
      Ends (rows.refresh execution context.execution_id s.clock) session ∧
      Completed d node_def context.node_id result rows.nodes execution context.execution_id
        s.clock session pubs ∧
      s' = s.commit t context.execution_id
        { execution := execution.flush session.execution rows.execution
          nodes := session.nodes
          dead_letter_jobs := rows.dead_letter_jobs ++ session.new_dead_letter_jobs
          logs := rows.logs ++ session.new_logs }
        session.ws_events
        (.publishing (some m) context.execution_id (Sys.jobs_of session pubs) []) := by
  unfold Sys.complete at h
  split at h
  · rename_i m context execution hphase
    split at h
    · cases h
      exact .inl rfl
    · rename_i rows hrows
      split at h
      · cases h
        exact .inl rfl
      · rename_i d node_def hlookup
        dsimp only at h
        split at h
        · -- the node is no longer RUNNING
          rename_i hret
          cases h
          exact .inr (.inl ⟨m, context, execution, rows, hphase, hrows,
            (process_job_complete_returned hret).2, rfl⟩)
        · cases h
          exact .inl rfl
        · rename_i session pubs hok
          cases h
          obtain ⟨d', hd⟩ := htyped.rows _ _ hrows
          -- the worker sees the definition that the rows were made from
          obtain ⟨rfl, -⟩ := hd.lookup hlookup
          obtain ⟨hsteps, hends, hdone⟩ := process_job_complete_committed (by
            intro c _ p hp
            rw [hd.2.2]
            exact hd.wellFormed.parent_mem hp) hok
          refine .inr (.inr ⟨m, context, execution, rows, _, node_def, session, pubs, hphase,
            hrows, hlookup, hsteps, hends, hdone, ?_⟩)
          have hnodes : (rows.commit (rows.refresh execution context.execution_id s.clock)
              session).nodes = session.nodes := commit_nodes_of_loaded hsteps.sameFrame rfl
          rw [← hnodes]
          rfl
  · cases h

theorem complete_effect {t : ℕ} {result : ExecutorResult} (htyped : s.Typed env)
    (h : s.complete env t result = some s') : Effect env s (.complete t result) s' := by
  rcases complete_cases htyped h with rfl | ⟨m, context, execution, rows, hphase, hrows, hst, rfl⟩ |
    ⟨m, context, execution, rows, d, node_def, session, pubs, hphase, hrows, hlookup, hsteps,
      hends, hdone, rfl⟩
  · refine .stop (.inl ?_) rfl
    unfold Sys.complete at h
    split at h
    · rename_i hphase
      exact ⟨by rw [hphase]; rfl, .inl (by rw [hphase]; rfl)⟩
    · cases h
  · exact .stale hphase hrows hst
  · exact .complete hphase hrows hlookup hsteps hends hdone

/-- **What a step can do.** One lemma for each function of the model, and for the five
actions that need none the inversion of their `match`. From here on, to know what a step
does is to know the constructors of [`Effect`]. -/
theorem effect_of_act {a : Action} (htyped : s.Typed env) (h : s.act env a = some s') :
    Effect env s a s' := by
  cases a with
  | start t vid input owner => exact start_effect h
  | retry t e n owner => exact retry_effect h
  | delete e owner => exact delete_effect h
  | claim t m => exact claim_effect h
  | recover t m => exact recover_effect h
  | reclaim t => exact reclaim_effect h
  | recover_claim t m => exact recover_claim_effect h
  | invoke t => exact invoke_effect h
  | complete t result => exact complete_effect htyped h
  | publish t =>
      simp only [Sys.act, Sys.publish] at h
      split at h
      · rename_i htask
        cases h
        exact .publish htask
      · cases h
  | publish_error t =>
      simp only [Sys.act, Sys.publish_error] at h
      split at h
      · cases h
        exact .stop (.inr (.inr rfl)) rfl
      · cases h
  | finish t =>
      simp only [Sys.act, Sys.finish] at h
      split at h
      · rename_i msg e sent events htask
        split at h
        · rename_i rows hrows
          cases h
          exact .finish htask hrows
        · rename_i hrows
          split at h
          · rename_i hsent
            subst hsent
            cases h
            exact .finish_gone htask hrows
          · cases h
            exact .stop (.inl ⟨by rw [htask]; rfl,
              .inr (.inr ⟨msg, e, sent, by rw [htask], hrows⟩)⟩) rfl
      · cases h
  | flush t =>
      simp only [Sys.act, Sys.flush] at h
      split at h
      · rename_i phase event events htask
        split at h
        · rename_i hphase
          cases h
          exact .flush htask hphase
        · cases h
      · cases h
  | ack t =>
      simp only [Sys.act, Sys.ack] at h
      split at h
      · rename_i m htask
        cases h
        exact .ack htask
      · cases h
  | reply t =>
      simp only [Sys.act, Sys.reply] at h
      split at h
      · rename_i htask
        cases h
        exact .reply htask
      · cases h
  | crash t =>
      simp only [Sys.act, Sys.crash] at h
      split at h
      · cases h
      · cases h
        exact .stop (.inr (.inl rfl)) rfl

/-- Only the task that takes an action moves. This is the frame of every later module:
whatever is said of a task that does not act is said of the same phase and the same staged
events. -/
theorem Effect.tasks_of_ne {a : Action} {t : ℕ} (h : Effect env s a s')
    (ht : a.task ≠ some t) : s'.tasks t = s.tasks t := by
  have other : ∀ {t₀ : ℕ} {task : Task}, a.task = some t₀ →
      Function.update s.tasks t₀ task t = s.tasks t := by
    rintro t₀ task h₀
    refine Function.update_of_ne ?_ _ _
    rintro rfl
    exact ht h₀
  cases h with
  | refused => rfl
  | delete => rfl
  | start => exact other rfl
  | retry => exact other rfl
  | discard ha => exact other (by rcases ha with rfl | rfl | rfl <;> rfl)
  | discard_logged ha => exact other (by rcases ha with rfl | rfl <;> rfl)
  | claim ha => exact other (by rcases ha with ⟨rfl, -⟩ | ⟨rfl, -⟩ <;> rfl)
  | recover_raised => exact other rfl
  | recover => exact other rfl
  | reclaim => exact other rfl
  | reclaim_discard => exact other rfl
  | stop ha hta => exact other hta
  | invoke => exact other rfl
  | stale => exact other rfl
  | complete => exact other rfl
  | publish => exact other rfl
  | finish => exact other rfl
  | finish_gone => exact other rfl
  | flush => exact other rfl
  | ack => exact other rfl
  | reply => exact other rfl

end Invert

end EventFlow
