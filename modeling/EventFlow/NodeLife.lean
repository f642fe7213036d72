/-
The life of one node row, and the claims tasks hold on it, for both alphabets.

[`NodeStep`] is the state machine of a row as the whole system drives it: what
a step can do to its status and its attempt, who causes it, and which publish
is owed for it afterwards. It is weaker than `RowsStep` in what it says about
the other columns, but it covers the two commits of `process_recovered_job`:
`revert` is the first of them, and a `claim` may be the second one, which
writes RUNNING over whatever the row is by then.
-/
import EventFlow.Invariant

set_option autoImplicit false

namespace EventFlow

open Transition

/-! ## Claims -/

/-- The node that an action is about to claim, and the attempt under which the
claiming task will hold it. -/
def Sys.claims (s : Sys) : Action → Option (ℕ × String × ℕ)
  | .claim _ m =>
    match s.stream[m]? with
    | some entry =>
      match s.executions entry.job.execution_id with
      | some rows =>
        if (rows.nodes.row entry.job.node_id).status = .QUEUED then
          some (entry.job.execution_id, entry.job.node_id,
            (rows.nodes.row entry.job.node_id).attempt)
        else none
      | none => none
    | none => none
  | .recover_claim _ m =>
    match s.stream[m]? with
    | some entry =>
      match s.executions entry.job.execution_id with
      | some rows =>
        if (rows.nodes.row entry.job.node_id).status = .QUEUED ∨
            (rows.nodes.row entry.job.node_id).status = .RUNNING then
          some (entry.job.execution_id, entry.job.node_id,
            (rows.nodes.row entry.job.node_id).attempt)
        else none
      | none => none
    | none => none
  | .reclaim t =>
    match (s.tasks t).phase with
    | .recovered _ job cached =>
      if cached.status = .QUEUED then some (job.execution_id, job.node_id, cached.attempt)
      else none
    | _ => none
  | _ => none

/-- The claim a task has not completed yet: the message it came with, the node
and the attempt. -/
def Phase.held : Phase → Option (ℕ × ℕ × String × ℕ)
  | .claimed m job attempt => some (m, job.execution_id, job.node_id, attempt)
  | .invoked m context _ => some (m, context.execution_id, context.node_id, context.attempt)
  | _ => none

section Held

variable {env : Env} {s s' : Sys} {a : Action}

/-- The claim constructor of `Effect` is a claim. -/
theorem claims_of_claim {t m : ℕ} {entry : StreamEntry} {rows : ExecutionRows}
    (ha : a = .claim t m ∧ (rows.nodes.row entry.job.node_id).status = .QUEUED ∨
      a = .recover_claim t m ∧
        ((rows.nodes.row entry.job.node_id).status = .QUEUED ∨
          (rows.nodes.row entry.job.node_id).status = .RUNNING))
    (hentry : s.stream[m]? = some entry)
    (hrows : s.executions entry.job.execution_id = some rows) :
    s.claims a = some (entry.job.execution_id, entry.job.node_id,
      (rows.nodes.row entry.job.node_id).attempt) := by
  rcases ha with ⟨rfl, hst⟩ | ⟨rfl, hst⟩
  · simp only [Sys.claims, hentry, hrows, hst, if_true]
  · simp only [Sys.claims, hentry, hrows, if_pos hst]

/-- **Where a held claim comes from**: it was held before, or this step makes it, and then
the node is RUNNING now. A task comes to hold a claim in the step that commits it, under a
message of its own or after a recovery; it keeps it when it goes from the claim to the
executor. -/
theorem Effect.held {t m e k : ℕ} {n : String} (h : Effect env s a s')
    (hheld : (s'.tasks t).phase.held = some (m, e, n, k)) :
    (s.tasks t).phase.held = some (m, e, n, k) ∨
      (s.claims a = some (e, n, k) ∧
        (∃ rows', s'.executions e = some rows' ∧ (rows'.nodes.row n).status = .RUNNING) ∧
        ((∃ entry, s.stream[m]? = some entry ∧ entry.job.execution_id = e ∧
          entry.job.node_id = n) ∨
        ∃ job cached, (s.tasks t).phase = .recovered m job cached ∧ job.execution_id = e ∧
          job.node_id = n)) := by
  have hcomes := h.comes t
  cases hphase : (s'.tasks t).phase with
  | claimed m' job k' =>
      rw [hphase] at hheld hcomes
      cases hheld
      cases hcomes with
      | stayed hold => exact .inl (by rw [hold]; rfl)
      | claimed ha hentry hrows hkey hrows' hnodes =>
          refine .inr ⟨claims_of_claim ha hentry hrows, ⟨_, hrows', ?_⟩,
            .inl ⟨_, hentry, rfl, rfl⟩⟩
          rw [hnodes, Table.row_set_self, NodeExecution.enter_status]
      | reclaimed ha hold hst hrows' hrun =>
          refine .inr ⟨?_, ⟨_, hrows', hrun⟩, .inr ⟨_, _, hold, rfl, rfl⟩⟩
          simp only [ha, Sys.claims, hold, hst, if_true]
  | invoked m' context execution =>
      rw [hphase] at hheld hcomes
      cases hheld
      cases hcomes with
      | stayed hold => exact .inl (by rw [hold]; rfl)
      | invoked hold hrows hlookup hsame => exact .inl (by rw [hold]; rfl)
  | _ =>
      rw [hphase] at hheld
      cases hheld

end Held

/-! ## The row of a node -/

/-- A publish of node `n` of `e` at attempt `k` is owed. -/
def Sys.Owed (s : Sys) (e : ℕ) (n : String) (k : ℕ) : Prop :=
  ∃ t, ∃ job ∈ (s.tasks t).phase.owes,
    job.execution_id = e ∧ job.node_id = n ∧ job.attempt = k

/-- What a step can do to the status and the attempt of a row. -/
inductive NodeStep (s s' : Sys) (a : Action) (e : ℕ) (n : String)
    (old new : NodeExecution) : Prop
  | same (hst : new.status = old.status) (hatt : new.attempt = old.attempt) :
      NodeStep s s' a e n old new
  | claim (k : ℕ) (hclaim : s.claims a = some (e, n, k)) (hst : new.status = .RUNNING)
      (hatt : new.attempt = old.attempt) : NodeStep s s' a e n old new
  | revert (t m : ℕ) (entry : StreamEntry) (ha : a = .recover t m)
      (hentry : s.stream[m]? = some entry) (he : entry.job.execution_id = e)
      (hn : entry.job.node_id = n) (hold : old.status = .RUNNING)
      (hst : new.status = .QUEUED) (hatt : new.attempt = old.attempt) :
      NodeStep s s' a e n old new
  | skip (hold : old.status = .PENDING) (hst : new.status = .SKIPPED)
      (hatt : new.attempt = old.attempt) : NodeStep s s' a e n old new
  | queue (hold : old.status = .PENDING ∨ old.status = .RUNNING ∨ old.status = .DEAD_LETTERED)
      (hst : new.status = .QUEUED) (hatt : new.attempt = old.attempt + 1)
      (howed : s'.Owed e n new.attempt) : NodeStep s s' a e n old new
  | finish (hold : old.status = .RUNNING)
      (hst : new.status = .SUCCEEDED ∨ new.status = .DEAD_LETTERED)
      (hatt : new.attempt = old.attempt) : NodeStep s s' a e n old new

/-- The rows of a new execution: roots QUEUED for the first time and owed, the
others PENDING. -/
def Sys.FirstRows (s' : Sys) (e : ℕ) (rows : ExecutionRows) : Prop :=
  ∀ n, ((rows.nodes.row n).status = .QUEUED ∧ (rows.nodes.row n).attempt = 1 ∧
      s'.Owed e n 1) ∨
    ((rows.nodes.row n).status = .PENDING ∧ (rows.nodes.row n).attempt = 0)

section NodeStep

variable {env : Env} {s s' : Sys} {a : Action}

/-- The jobs a task owes after a commit. -/
theorem owed_of_mem {t e : ℕ} {n : String} {k : ℕ} {msg : Option ℕ} {session : Session}
    {pubs : List String} {sent : List (String × ℕ)} {events : List Envelope}
    (htask : s'.tasks t = ⟨.publishing msg e (Sys.jobs_of session pubs) sent, events⟩)
    (hn : n ∈ pubs) (he : session.execution_id = e)
    (hk : (session.nodes.row n).attempt = k) : s'.Owed e n k := by
  refine ⟨t, session.job n k, ?_, he, rfl, rfl⟩
  rw [htask]
  exact List.mem_map.mpr ⟨n, hn, by rw [hk]⟩

/-- The statuses and attempts after the loops of `_queue_downstream_nodes`. A node that is
queued by them is among those whose jobs the task owes from now on, which is why the task
is part of the statement. -/
theorem Completed.nodeStep {t e : ℕ} {d : WorkflowDefinition} {node_def : Node} {n : String}
    {result : ExecutorResult} {rows : ExecutionRows} {execution : Execution} {session : Session}
    {pubs : List String} {msg : Option ℕ} {events : List Envelope}
    (h : Completed d node_def n result rows.nodes execution e s.clock session pubs)
    (htask : s'.tasks t = ⟨.publishing msg e (Sys.jobs_of session pubs) [], events⟩)
    (he : session.execution_id = e) (m : String) :
    NodeStep s s' a e m (rows.nodes.row m) (session.nodes.row m) := by
  by_cases hm : m = n
  · subst hm
    have hrun := h.running.2
    rcases h.own_row with hrow | ⟨hrow, hpub⟩ | hrow
    · exact .finish hrun (.inl (by rw [hrow]; rfl)) (by rw [hrow]; rfl)
    · exact .queue (.inr (.inl hrun)) (by rw [hrow]; rfl) (by rw [hrow]; rfl)
        (owed_of_mem htask hpub he rfl)
    · exact .finish hrun (.inr (by rw [hrow]; rfl)) (by rw [hrow]; rfl)
  · cases h with
    | succeed targets _ hkey hrun hres hT heff hdead hexec =>
        have hback := Table.row_set_of_ne rows.nodes
          ((rows.nodes.row n).succeed result.output s.clock) hm
        rcases heff.cases m with ⟨-, hp, hrow⟩ | ⟨hpub, hp, -, hrow⟩ | ⟨-, -, hrow⟩
        · rw [hback] at hp hrow
          exact .skip hp (by rw [hrow]; rfl) (by rw [hrow]; rfl)
        · rw [hback] at hp hrow
          exact .queue (.inl hp) (by rw [hrow]; rfl) (by rw [hrow]; rfl)
            (owed_of_mem htask hpub he rfl)
        · rw [hback] at hrow
          exact .same (by rw [hrow]) (by rw [hrow])
    | requeue hkey hrun hres hleft hnodes hdead hexec =>
        rw [hnodes, Table.row_set_of_ne _ _ hm]
        exact .same rfl rfl
    | bury hkey hrun hres hleft hnodes hdead hexec =>
        rw [hnodes, Table.row_set_of_ne _ _ hm]
        exact .same rfl rfl

/-- **What a step does to the rows of an execution**, of either alphabet. The projection
of [`Effect`] to one node: each constructor writes one row, or, if it is a completion,
several ([`Completed.nodeStep`]); the rows of a new execution have no past and come as
[`Sys.FirstRows`]. -/
theorem Effect.nodeStep {e : ℕ} {rows' : ExecutionRows} (h : Effect env s a s')
    (hrows' : s'.executions e = some rows') :
    (e = s.next_execution_id ∧ s'.FirstRows e rows') ∨
    ∃ rows, s.executions e = some rows ∧ rows'.nodes.keys = rows.nodes.keys ∧
      ∀ n, NodeStep s s' a e n (rows.nodes.row n) (rows'.nodes.row n) := by
  -- one row is written
  have set : ∀ {nodes : Table String NodeExecution} {n₀ : String} {node : NodeExecution},
      NodeStep s s' a e n₀ (nodes.row n₀) node →
      ∀ n, NodeStep s s' a e n (nodes.row n) ((nodes.set n₀ node).row n) := by
    intro nodes n₀ node hstep n
    by_cases hn : n = n₀
    · subst hn
      rwa [Table.row_set_self]
    · rw [Table.row_set_of_ne _ _ hn]
      exact .same rfl rfl
  cases h.wrote hrows' with
  | same hrows => exact .inr ⟨rows', hrows, rfl, fun _ => .same rfl rfl⟩
  | @inserted t vid owner input session pubs ha he hok htask =>
      obtain ⟨version, -, -, hsteps, -, -, -, -, -, -, -, -, hq, hkeep⟩ :=
        start_execution_spec hok
      refine .inl ⟨he, fun n => ?_⟩
      by_cases hn : n ∈ pubs
      · have hrow : session.nodes.row n
            = (initial_node version.definition n).enter .QUEUED s.clock := hq n hn
        have hatt : (session.nodes.row n).attempt = 1 := by
          rw [hrow, NodeExecution.enter_queued_attempt, initial_node_attempt]
        refine .inl ⟨?_, hatt, owed_of_mem htask hn hsteps.sameFrame.execution_id hatt⟩
        change (session.nodes.row n).status = _
        rw [hrow, NodeExecution.enter_status]
      · have hrow : session.nodes.row n = initial_node version.definition n := hkeep n hn
        refine .inr ⟨?_, ?_⟩
        · change (session.nodes.row n).status = _
          rw [hrow, initial_node_status]
        · change (session.nodes.row n).attempt = _
          rw [hrow, initial_node_attempt]
  | @retried t owner n rows session logs ha hrows hkey hst hid hrow htask =>
      refine .inr ⟨rows, hrows, rfl, set (.queue (.inr (.inr hst)) (by simp) (by simp) ?_)⟩
      exact owed_of_mem htask (List.mem_singleton.mpr rfl) hid (by rw [hrow])
  | logged hrows => exact .inr ⟨_, hrows, rfl, fun _ => .same rfl rfl⟩
  | claimed ha hentry he hrows hkey =>
      subst he
      exact .inr ⟨_, hrows, rfl, set (.claim _ (claims_of_claim ha hentry hrows) (by simp) rfl)⟩
  | @reverted t m entry rows logs ha hentry he hrows =>
      refine .inr ⟨rows, hrows, rfl, set ?_⟩
      by_cases hrun : (rows.nodes.row entry.job.node_id).status = .RUNNING
      · rw [NodeExecution.revert, if_pos hrun]
        exact .revert t m entry ha hentry he rfl hrun rfl rfl
      · rw [NodeExecution.revert_of_ne hrun]
        exact .same rfl rfl
  | @reclaimed t m job cached rows logs ha hphase he hrows hst =>
      refine .inr ⟨rows, hrows, rfl, set (.claim cached.attempt ?_ ?_ ?_)⟩
      · simp only [ha, Sys.claims, hphase, hst, if_true, he]
      · simp [NodeExecution.flush, written, hst]
      · simp [NodeExecution.flush, written, NodeExecution.enter_attempt]
  | completed ha hphase he hrows hlookup hframe hends hdone htask =>
      exact .inr ⟨_, hrows, hframe.keys, hdone.nodeStep htask hframe.execution_id⟩
  | ids sent hrows =>
      refine .inr ⟨_, hrows, rfl, fun n => ?_⟩
      obtain ⟨id, hrow⟩ := row_set_message_ids _ sent n
      rw [hrow]
      exact .same rfl rfl

/-- Rows were there before, or an execution has just been started. -/
theorem Effect.stored_or_started {e : ℕ} {rows' : ExecutionRows} (h : Effect env s a s')
    (hrows' : s'.executions e = some rows') :
    (∃ rows, s.executions e = some rows) ∨
      (e = s.next_execution_id ∧ ∃ d, rows'.Of env d ∧ Started d rows') := by
  cases h.wrote hrows' with
  | inserted ha he hok htask => exact .inr ⟨he, started_of_start hok⟩
  | same hrows => exact .inl ⟨_, hrows⟩
  | retried ha hrows => exact .inl ⟨_, hrows⟩
  | logged hrows => exact .inl ⟨_, hrows⟩
  | claimed ha hentry he hrows => exact .inl ⟨_, hrows⟩
  | reverted ha hentry he hrows => exact .inl ⟨_, hrows⟩
  | reclaimed ha hphase he hrows => exact .inl ⟨_, hrows⟩
  | completed ha hphase he hrows => exact .inl ⟨_, hrows⟩
  | ids sent hrows => exact .inl ⟨_, hrows⟩

/-- The rows of an execution that is stored before and after a step. -/
theorem Effect.nodeStep_of_stored {e : ℕ} {rows rows' : ExecutionRows} (h : Effect env s a s')
    (ht : s.Typed env) (hrows : s.executions e = some rows)
    (hrows' : s'.executions e = some rows') (n : String) :
    NodeStep s s' a e n (rows.nodes.row n) (rows'.nodes.row n) := by
  rcases h.nodeStep hrows' with ⟨he, -⟩ | ⟨r, hr, -, hnode⟩
  · have := ht.lt hrows
    omega
  · rw [hrows, Option.some.injEq] at hr
    exact hr ▸ hnode n

end NodeStep

end EventFlow
