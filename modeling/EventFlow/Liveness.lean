/-
Liveness: wherever a run has led, workers that go on bring every execution to
its end.

Each node has an amount of work left, [`NodeExecution.work`]: an attempt more
than it may still fail, and one more while it has not been queued. A committed
completion lowers the total ([`Completed.work_lt`]), and as long as a node is
QUEUED or RUNNING a completion can be brought about: by `DeliveryInv` its job is
owed or pending, so that it can be published and handed to an idle task, and that
task gets through to its commit ([`Sys.Live.completes`]). The progress rule of
`Library/Transition.lean` makes a run of it.

What the run before may contain is anything that loses no message: crashes of
tasks that owe nothing, requests, duplicate deliveries, recovery. How the
executors answer is arbitrary, and may depend on the attempt.
-/
import EventFlow.Confluence
import Mathlib.Algebra.Order.BigOperators.Group.List

set_option autoImplicit false

namespace EventFlow

open Transition

/-! ## The work that is left -/

/-- What a node may still need: a completion for each attempt that is left, and
one unit more while it waits to be queued. -/
def NodeExecution.work (node : NodeExecution) : ℕ :=
  match node.status with
  | .PENDING => node.max_attempts + 2
  | .QUEUED | .RUNNING => node.max_attempts - node.attempt + 1
  | _ => 0

/-- The work of all nodes. -/
def ExecutionRows.work (rows : ExecutionRows) : ℕ :=
  (rows.nodes.keys.map fun n => (rows.nodes.row n).work).sum

section Work

variable {d : WorkflowDefinition} {node_def : Node} {n : String} {result : ExecutorResult}
  {nodes : Table String NodeExecution} {execution : Execution} {e now : ℕ} {session : Session}
  {pubs : List String}

theorem NodeExecution.work_of_pending {node : NodeExecution} (h : node.status = .PENDING) :
    node.work = node.max_attempts + 2 := by
  rw [NodeExecution.work, h]

theorem NodeExecution.work_of_running {node : NodeExecution} (h : node.status = .RUNNING) :
    node.work = node.max_attempts - node.attempt + 1 := by
  rw [NodeExecution.work, h]

/-- Starting a node does no work yet. -/
theorem NodeExecution.work_enter_running {node : NodeExecution}
    (h : node.status = .QUEUED ∨ node.status = .RUNNING) :
    (node.enter .RUNNING now).work = node.work := by
  rcases h with h | h <;> rw [NodeExecution.work, NodeExecution.work, h] <;> rfl

/-- Queueing or skipping a PENDING node is progress. -/
theorem NodeExecution.work_leave_pending {node : NodeExecution} {to_status : NodeExecutionStatus}
    (h : node.status = .PENDING) (hto : to_status = .QUEUED ∨ to_status = .SKIPPED) :
    (node.enter to_status now).work < node.work := by
  rw [NodeExecution.work_of_pending h]
  rcases hto with rfl | rfl
  · change node.max_attempts - (node.attempt + 1) + 1 < _
    omega
  · exact Nat.succ_pos _

/-- The node that completes has less work left. -/
theorem Completed.own_work
    (h : Completed d node_def n result nodes execution e now session pubs) :
    (session.nodes.row n).work < (nodes.row n).work := by
  rw [NodeExecution.work_of_running h.running.2]
  cases h with
  | succeed targets _ hkey hrun hres hT heff hdead hexec =>
      rcases heff.cases n with ⟨-, hp, -⟩ | ⟨-, hp, -⟩ | ⟨-, -, hrow⟩
      · rw [Table.row_set_self] at hp
        cases hp
      · rw [Table.row_set_self] at hp
        cases hp
      · rw [hrow, Table.row_set_self]
        exact Nat.succ_pos _
  | requeue hkey hrun hres hleft hnodes hdead hexec =>
      rw [hnodes, Table.row_set_self]
      change (nodes.row n).max_attempts - ((nodes.row n).attempt + 1) + 1 < _
      omega
  | bury hkey hrun hres hleft hnodes hdead hexec =>
      rw [hnodes, Table.row_set_self]
      exact Nat.succ_pos _

/-- No other node has more. -/
theorem Completed.other_work
    (h : Completed d node_def n result nodes execution e now session pubs) {m : String}
    (hm : m ≠ n) : (session.nodes.row m).work ≤ (nodes.row m).work := by
  cases h with
  | succeed targets _ hkey hrun hres hT heff hdead hexec =>
      have hback := Table.row_set_of_ne nodes ((nodes.row n).succeed result.output now) hm
      rcases heff.cases m with ⟨-, hp, hrow⟩ | ⟨-, hp, -, hrow⟩ | ⟨-, -, hrow⟩
      · rw [hback] at hp hrow
        rw [hrow]
        exact (NodeExecution.work_leave_pending hp (.inr rfl)).le
      · rw [hback] at hp hrow
        rw [hrow]
        exact (NodeExecution.work_leave_pending hp (.inl rfl)).le
      · rw [hrow, hback]
  | requeue hkey hrun hres hleft hnodes hdead hexec =>
      rw [hnodes, Table.row_set_of_ne _ _ hm]
  | bury hkey hrun hres hleft hnodes hdead hexec =>
      rw [hnodes, Table.row_set_of_ne _ _ hm]

/-- A claim does no work yet. -/
theorem ExecutionRows.work_claim {rows rows' : ExecutionRows}
    (hnodes : rows'.nodes = rows.nodes.set n ((rows.nodes.row n).enter .RUNNING now))
    (hst : (rows.nodes.row n).status = .QUEUED ∨ (rows.nodes.row n).status = .RUNNING) :
    rows'.work = rows.work := by
  unfold ExecutionRows.work
  rw [hnodes, Table.keys_set]
  refine congrArg List.sum (List.map_congr_left fun m _ => ?_)
  by_cases hm : m = n
  · rw [hm, Table.row_set_self, NodeExecution.work_enter_running hst]
  · rw [Table.row_set_of_ne _ _ hm]

/-- **A committed completion lowers the total.** The node itself loses a unit: an attempt
it may still fail, or all of them when it is done. The nodes behind it can only lose what
they had for being queued. -/
theorem Completed.work_lt {rows rows' : ExecutionRows}
    (h : Completed d node_def n result rows.nodes execution e now session pubs)
    (hkeys : session.nodes.keys = rows.nodes.keys) (hnodes : rows'.nodes = session.nodes) :
    rows'.work < rows.work := by
  unfold ExecutionRows.work
  rw [hnodes, hkeys]
  refine List.sum_lt_sum _ _ (fun m _ => ?_) ⟨n, h.running.1, h.own_work⟩
  by_cases hm : m = n
  · rw [hm]
    exact h.own_work.le
  · exact h.other_work hm

end Work

/-! ## Workers that go on -/

/-- The steps of workers and of the recovery loop, without requests, crashes and
failing publishes. -/
def Action.forward : Action → Bool
  | .claim .. => true
  | .recover_claim .. => true
  | .invoke _ => true
  | .complete .. => true
  | .publish _ => true
  | .finish _ => true
  | .flush _ => true
  | .ack _ => true
  | .reply _ => true
  | _ => false

/-- Workers go on with what is pending, and what an executor returns is given by
`answer`. -/
structure Sys.Serves (answer : ExecutionContext → ExecutorResult) (s : Sys) (a : Action) :
    Prop where
  forward : a.forward = true
  pending : ∀ t m, a = .claim t m ∨ a = .recover_claim t m →
    ∃ entry, s.stream[m]? = some entry ∧ entry.acked = false
  result : ∀ t result m context execution, a = .complete t result →
    (s.tasks t).phase = .invoked m context execution → result = answer context

theorem Action.atomic_of_forward {a : Action} (h : a.forward = true) : a.atomic = true := by
  cases a <;> first | rfl | cases h

theorem Sys.keepsJobs_of_forward {s : Sys} {a : Action} (h : a.forward = true) :
    s.KeepsJobs a := by
  cases a <;> trivial

/-- What such a run starts from and keeps: execution `e` is stored with the
definition `d`, its jobs are named, and there is an idle task. -/
structure Sys.Live (env : Env) (e : ℕ) (d : WorkflowDefinition) (s : Sys) : Prop where
  atomic : AtomicInv env s
  delivery : DeliveryInv s
  idle : ∃ bound, s.IdleFrom bound
  stored : ∃ rows, s.executions e = some rows ∧ rows.Of env d

section Live

variable {env : Env} (answer : ExecutionContext → ExecutorResult) {s s' : Sys} {a : Action}
  {e t : ℕ} {d : WorkflowDefinition} {rows : ExecutionRows} {n : String}

/-- Only finitely many tasks are at work. -/
theorem Sys.IdleFrom.exists_step (h : ∃ bound, s.IdleFrom bound) (ht : s.Typed env)
    (hs : s.step env a = some s') : ∃ bound, s'.IdleFrom bound := by
  obtain ⟨bound, hidle⟩ := h
  cases htask : a.task with
  | none =>
      refine ⟨bound, hidle.step ht ?_ hs⟩
      simp only [Action.below, htask]
  | some t =>
      have hidle' : s.IdleFrom (max bound (t + 1)) := fun t' ht' =>
        hidle t' ((le_max_left _ _).trans ht')
      refine ⟨_, hidle'.step ht ?_ hs⟩
      simp only [Action.below, htask, decide_eq_true_eq]
      omega

/-- The rows of a stored execution keep their definition. -/
theorem Effect.of_stays {rows' : ExecutionRows} (h : Effect env s a s') (ht : s.Typed env)
    (ha : a.atomic = true) (hrows : s.executions e = some rows) (hd : rows.Of env d)
    (hrows' : s'.executions e = some rows') : rows'.Of env d := by
  rcases h.rowsStep ht ha hrows' with ⟨_, _, _, _, _, _, -, he, -, -⟩ | ⟨r, d', hr, hd', hstep⟩
  · have := ht.lt hrows
    omega
  · rw [hrows, Option.some.injEq] at hr
    subst hr
    obtain rfl := hd.unique hd'
    exact hstep.of hd

theorem Sys.Live.step (h : s.Live env e d) (ha : a.forward = true)
    (hs : s.step env a = some s') : s'.Live env e d := by
  have hatomic := Action.atomic_of_forward ha
  obtain ⟨u, hu, rfl⟩ := Option.map_eq_some_iff.mp hs
  have heff := effect_of_act h.atomic.typed hu
  obtain ⟨rows, hrows, hd⟩ := h.stored
  have hnot : ∀ owner, a ≠ .delete e owner := by
    rintro owner rfl
    cases ha
  obtain ⟨rows', hrows'⟩ := heff.stays_stored hrows hnot
  have hdel := h.delivery.effect h.atomic.typed heff (Sys.keepsJobs_of_forward ha)
  exact ⟨h.atomic.step hs hatomic,
    ⟨hdel.row, hdel.entry, hdel.owed, hdel.held, hdel.recovered, hdel.waiting, hdel.done,
      hdel.named⟩,
    Sys.IdleFrom.exists_step h.idle h.atomic.typed hs,
    rows', hrows', heff.of_stays h.atomic.typed hatomic hrows hd hrows'⟩

theorem Sys.Live.run {answer : ExecutionContext → ExecutorResult} (h : s.Live env e d)
    (hrun : Reaches (Sys.step env) (Sys.Serves answer) s s') : s'.Live env e d :=
  hrun.invariant (Sys.Live env e d) h fun _ _ _ hu hg hs => hu.step hg.forward hs

/-- One step of a run in which workers go on, other than a completion. -/
theorem Sys.reaches_of_act (ha : a.forward = true) (hnot : ∀ t result, a ≠ .complete t result)
    (hpending : ∀ t m, a = .claim t m ∨ a = .recover_claim t m →
      ∃ entry, s.stream[m]? = some entry ∧ entry.acked = false)
    (h : s.act env a = some s') :
    Reaches (Sys.step env) (Sys.Serves answer) s { s' with clock := s.clock + 1 } := by
  refine .single a ⟨ha, hpending, fun t result m context execution hcomp => ?_⟩ ?_
  · exact absurd hcomp (hnot t result)
  · rw [Sys.step, h, Option.map_some]

/-! ### Publishing, broadcasting, claiming -/

/-- A task that owes publishes can make them. -/
theorem Sys.publish_owed (env : Env) {msg : Option ℕ} {owed : List Job}
    {events : List Envelope} {job : Job}
    (hjob : job ∈ owed) (s : Sys) (sent : List (String × ℕ))
    (htask : s.tasks t = ⟨.publishing msg e owed sent, events⟩) :
    ∃ s', Reaches (Sys.step env) (Sys.Serves answer) s s' ∧ s'.executions = s.executions ∧
      ∃ i : ℕ, s'.stream[i]? = some { job } := by
  induction owed generalizing s sent with
  | nil => cases hjob
  | cons first owed ih =>
      have hact : s.act env (.publish t) = some { s with
          stream := s.stream ++ [{ job := first }]
          tasks := Function.update s.tasks t
            ⟨.publishing msg e owed (sent ++ [(first.node_id, s.stream.length)]), events⟩ } := by
        simp only [Sys.act, Sys.publish, htask]
      have hone := Sys.reaches_of_act answer rfl (by simp) (by simp) hact
      rcases List.mem_cons.mp hjob with rfl | hmem
      · exact ⟨_, hone, rfl, s.stream.length, by simp⟩
      · obtain ⟨s', hrun, hexec, hentry⟩ := ih hmem
          { s with
            stream := s.stream ++ [{ job := first }]
            tasks := Function.update s.tasks t
              ⟨.publishing msg e owed (sent ++ [(first.node_id, s.stream.length)]), events⟩
            clock := s.clock + 1 } _ (Function.update_self ..)
        exact ⟨s', hone.trans hrun, hexec, hentry⟩

/-- A task can broadcast what it has staged. -/
theorem Sys.flush_staged (env : Env) {phase : Phase} (hphase : Sys.Flushes phase = true)
    (events : List Envelope) (s : Sys) (htask : s.tasks t = ⟨phase, events⟩) :
    ∃ s', Reaches (Sys.step env) (Sys.Serves answer) s s' ∧ s'.executions = s.executions ∧
      s'.tasks t = ⟨phase, []⟩ := by
  induction events generalizing s with
  | nil => exact ⟨s, .refl, rfl, htask⟩
  | cons event events ih =>
      have hact : s.act env (.flush t) = some { s with
          channel := s.channel ++ [event]
          tasks := Function.update s.tasks t ⟨phase, events⟩ } := by
        simp only [Sys.act, Sys.flush, htask, hphase, if_true]
      have hone := Sys.reaches_of_act answer rfl (by simp) (by simp) hact
      obtain ⟨s', hrun, hexec, htask'⟩ := ih
        { s with
          channel := s.channel ++ [event]
          tasks := Function.update s.tasks t ⟨phase, events⟩
          clock := s.clock + 1 } (Function.update_self ..)
      exact ⟨s', hone.trans hrun, hexec, htask'⟩

/-- Recovery leaves a node that has work QUEUED. -/
theorem process_recovered_job_of_busy {u : Session} {m : ℕ} (hkey : n ∈ u.nodes.keys)
    (hst : (u.nodes.row n).status = .QUEUED ∨ (u.nodes.row n).status = .RUNNING) :
    ∃ u', process_recovered_job u n m = .proceed u' ∧ n ∈ u'.nodes.keys ∧
      (u'.nodes.row n).status = .QUEUED := by
  have hget := Table.get?_of_mem hkey
  rcases hst with hst | hst
  · refine ⟨worker_recovered_job u n m, ?_, hkey, hst⟩
    simp [process_recovered_job, hget, hst, TERMINAL_NODE_STATUSES]
  · refine ⟨(worker_recovered_job u n m).set_node n
      { u.nodes.row n with status := .QUEUED }, ?_, hkey, ?_⟩
    · simp [process_recovered_job, hget, hst, TERMINAL_NODE_STATUSES]
    · simp [Session.set_node]

/-- The claim of a QUEUED node goes through. -/
theorem process_job_claim_of_queued {u : Session} (hkey : n ∈ u.nodes.keys)
    (hst : (u.nodes.row n).status = .QUEUED) :
    ∃ u', process_job_claim u n = .committed u' := by
  have hget := Table.get?_of_mem hkey
  obtain ⟨u', htr, -, -⟩ := transition_node_status_total .RUNNING hget hst rfl
  refine ⟨node_started u' n, ?_⟩
  simp [process_job_claim, hget, hst, TERMINAL_NODE_STATUSES, htr]

/-- An idle task can take a message of a node that has work. -/
theorem Sys.recover_claim_pending (env : Env) {m : ℕ} {entry : StreamEntry}
    (hidle : (s.tasks t).phase = .idle) (hentry : s.stream[m]? = some entry)
    (hrows : s.executions entry.job.execution_id = some rows)
    (hkey : entry.job.node_id ∈ rows.nodes.keys)
    (hst : (rows.nodes.row entry.job.node_id).status = .QUEUED ∨
      (rows.nodes.row entry.job.node_id).status = .RUNNING) :
    ∃ s' k, s.act env (.recover_claim t m) = some s' ∧
      (s'.tasks t).phase = .claimed m entry.job k := by
  obtain ⟨u, hproc, hkey', hq⟩ := process_recovered_job_of_busy (m := m)
    (u := rows.load entry.job.execution_id s.clock) hkey hst
  obtain ⟨u', hclaim⟩ := process_job_claim_of_queued hkey' hq
  refine ⟨s.commit t entry.job.execution_id
    (rows.commit (rows.load entry.job.execution_id s.clock) u') u'.ws_events
    (.claimed m entry.job (u'.nodes.row entry.job.node_id).attempt),
    (u'.nodes.row entry.job.node_id).attempt, ?_, ?_⟩
  · simp only [Sys.act, Sys.recover_claim, hidle, hentry, hrows, hproc, hclaim]
  · simp only [Sys.commit, Function.update_self]

/-! ### Running and completing -/

/-- A claimed node gets to its executor. -/
theorem Sys.invoke_claimed {m k : ℕ} {job : Job} (htask : s.tasks t = ⟨.claimed m job k, []⟩)
    (hrows : s.executions job.execution_id = some rows) (hd : rows.Of env d)
    (hn : job.node_id ∈ d.node_ids) :
    ∃ s' context, s.act env (.invoke t) = some s' ∧ s'.executions = s.executions ∧
      (s'.tasks t).phase = .invoked m context rows.execution ∧
      context.execution_id = job.execution_id ∧ context.node_id = job.node_id := by
  obtain ⟨node_def, hdef, hlookup⟩ := hd.lookup_ok hn
  obtain ⟨executor, hget⟩ := hd.registered hdef
  obtain ⟨context, hcontext⟩ : ∃ context, context = build_context job.execution_id
      rows.execution rows.nodes d node_def job.node_id k := ⟨_, rfl⟩
  have hact : s.act env (.invoke t) = some (s.park t (.invoked m context rows.execution)) := by
    simp only [Sys.act, Sys.invoke, htask, hrows, hlookup, hget, hcontext]
  refine ⟨_, context, hact, rfl, ?_, ?_⟩
  · simp only [Sys.park, Function.update_self]
  · rw [hcontext]
    exact ⟨rfl, rfl⟩

/-- An executor that has returned gets its result committed. -/
theorem Sys.complete_invoked {m : ℕ} {context : ExecutionContext} {execution : Execution}
    (hphase : (s.tasks t).phase = .invoked m context execution)
    (hrows : s.executions context.execution_id = some rows) (hd : rows.Of env d)
    (hbranch : BranchesAreChildren d) (hn : context.node_id ∈ d.node_ids)
    (hrun : (rows.nodes.row context.node_id).status = .RUNNING) (result : ExecutorResult) :
    ∃ s' rows', s.act env (.complete t result) = some s' ∧
      s'.executions context.execution_id = some rows' ∧ rows'.work < rows.work := by
  obtain ⟨node_def, hdef, hlookup⟩ := hd.lookup_ok hn
  obtain ⟨session, pubs, hdone⟩ : ∃ session pubs, process_job_complete
      (rows.refresh execution context.execution_id s.clock) d node_def context.node_id result
        = .committed (session, pubs) :=
    process_job_complete_total hd hbranch hn hdef hrun result
  obtain ⟨hsteps, -, hcompleted⟩ := process_job_complete_committed (by
    intro c _ p hp
    rw [hd.2.2]
    exact hd.wellFormed.parent_mem hp) hdone
  have hact : s.act env (.complete t result) = some (s.commit t context.execution_id
      (rows.commit (rows.refresh execution context.execution_id s.clock) session)
      session.ws_events
      (.publishing (some m) context.execution_id (Sys.jobs_of session pubs) [])) := by
    simp only [Sys.act, Sys.complete, hphase, hrows, hlookup, hdone]
  exact ⟨_, _, hact, Function.update_self ..,
    hcompleted.work_lt hsteps.sameFrame.keys (commit_nodes_of_loaded hsteps.sameFrame rfl)⟩

/-! ### One completion -/

/-- The job of a node that has work can be made pending. -/
theorem Sys.Live.pending (h : s.Live env e d) (hrows : s.executions e = some rows)
    (hkey : n ∈ rows.nodes.keys)
    (hst : (rows.nodes.row n).status = .QUEUED ∨ (rows.nodes.row n).status = .RUNNING) :
    ∃ (s' : Sys) (m : ℕ) (entry : StreamEntry), Reaches (Sys.step env) (Sys.Serves answer) s s' ∧
      s'.executions = s.executions ∧ s'.stream[m]? = some entry ∧ entry.acked = false ∧
      entry.job.execution_id = e ∧ entry.job.node_id = n := by
  rcases h.delivery.named e rows hrows n hkey hst with
    ⟨m, entry, hentry, hacked, he, hn, -⟩ | ⟨t, job, hjob, he, hn, -⟩
  · exact ⟨s, m, entry, .refl, rfl, hentry, hacked, he, hn⟩
  · -- the task that owes the publish makes it
    cases htask : s.tasks t with
    | mk phase events =>
        rw [htask] at hjob
        cases phase with
        | publishing msg e₀ owed sent =>
            obtain ⟨s', hrun, hexec, m, hentry⟩ :=
              Sys.publish_owed answer env hjob s sent htask
            exact ⟨s', m, _, hrun, hexec, hentry, rfl, he, hn⟩
        | _ => cases hjob

/-- **A completion can be brought about** while a node is QUEUED or RUNNING: its
job is published, an idle task takes it, broadcasts what the claim has staged,
calls the executor and commits. -/
theorem Sys.Live.completes (hbranch : BranchesAreChildren d) (h : s.Live env e d)
    (hrows : s.executions e = some rows) (hkey : n ∈ rows.nodes.keys)
    (hst : (rows.nodes.row n).status = .QUEUED ∨ (rows.nodes.row n).status = .RUNNING) :
    ∃ s' rows', Reaches (Sys.step env) (Sys.Serves answer) s s' ∧
      s'.executions e = some rows' ∧ rows'.work < rows.work := by
  -- the publish, if it is still owed
  obtain ⟨s₁, m, entry, hrun₁, hexec₁, hentry, hacked, rfl, rfl⟩ :=
    h.pending answer hrows hkey hst
  have h₁ := h.run hrun₁
  obtain ⟨t, hidle⟩ := h₁.idle
  have hrows₁ : s₁.executions entry.job.execution_id = some rows := by rw [hexec₁, hrows]
  -- the claim
  obtain ⟨u₂, k, hact₂, hphase₂⟩ := Sys.recover_claim_pending env
    (by rw [hidle t le_rfl]) hentry hrows₁ hkey hst
  have hone₂ := Sys.reaches_of_act answer rfl (by simp) (by
    rintro t' m' (heq | heq)
    · cases heq
    · cases heq
      exact ⟨entry, hentry, hacked⟩) hact₂
  obtain ⟨r, rows₂, hr, hrows₂, -, hnodes₂, -⟩ :=
    ((effect_of_act h₁.atomic.typed hact₂).claimed rfl hphase₂).resolve_left
      (by rw [hidle t le_rfl]; simp)
  rw [hrows₁, Option.some.injEq] at hr
  subst hr
  have hwork₂ : rows₂.work = rows.work := ExecutionRows.work_claim hnodes₂ hst
  have hrun₂ : (rows₂.nodes.row entry.job.node_id).status = .RUNNING := by
    rw [hnodes₂, Table.row_set_self, NodeExecution.enter_status]
  -- the events it has staged
  have htask₂ : u₂.tasks t = ⟨.claimed m entry.job k, (u₂.tasks t).ws_events⟩ := by
    rw [← hphase₂]
  obtain ⟨s₃, hrun₃, hexec₃, htask₃⟩ := Sys.flush_staged answer env rfl (u₂.tasks t).ws_events
    { u₂ with clock := s₁.clock + 1 } htask₂
  have h₃ := (h₁.run hone₂).run hrun₃
  have hrows₃ : s₃.executions entry.job.execution_id = some rows₂ := by
    rw [hexec₃]
    exact hrows₂
  obtain ⟨r, hr, hd⟩ := h₃.stored
  rw [hrows₃, Option.some.injEq] at hr
  subst hr
  have hn : entry.job.node_id ∈ d.node_ids := by
    rw [← hd.2.2, hnodes₂]
    exact hkey
  -- the executor
  obtain ⟨u₄, context, hact₄, hexec₄, hphase₄, he₄, hn₄⟩ :=
    Sys.invoke_claimed htask₃ hrows₃ hd hn
  have hone₄ := Sys.reaches_of_act answer rfl (by simp) (by simp) hact₄
  -- the completion
  rw [← he₄, ← hexec₄] at hrows₃
  rw [← hn₄] at hn hrun₂
  obtain ⟨u₅, rows₅, hact₅, hrows₅, hlt⟩ :=
    Sys.complete_invoked (s := { u₄ with clock := s₃.clock + 1 }) hphase₄ hrows₃ hd hbranch hn
      hrun₂ (answer context)
  have hone₅ : Reaches (Sys.step env) (Sys.Serves answer) { u₄ with clock := s₃.clock + 1 }
      { u₅ with clock := s₃.clock + 1 + 1 } := by
    refine .single (.complete t (answer context)) ⟨rfl, by simp, ?_⟩ (by rw [Sys.step, hact₅]; rfl)
    rintro t' result m' context' execution' hcomp hphase'
    cases hcomp
    rw [hphase₄] at hphase'
    cases hphase'
    rfl
  refine ⟨_, rows₅, hrun₁.trans (hone₂.trans (hrun₃.trans (hone₄.trans hone₅))), ?_, ?_⟩
  · rw [← he₄]
    exact hrows₅
  · rw [← hwork₂]
    exact hlt

end Live

/-! ## Every execution can be finished -/

/-- No node of the execution is QUEUED or RUNNING. -/
def ExecutionRows.AtEnd (rows : ExecutionRows) : Prop :=
  ∀ n ∈ rows.nodes.keys,
    (rows.nodes.row n).status ≠ .QUEUED ∧ (rows.nodes.row n).status ≠ .RUNNING

/-- The work that is left in execution `e`. -/
def Sys.work (e : ℕ) (s : Sys) : ℕ := (s.executions e).elim 0 ExecutionRows.work

theorem Sys.Live.descends {env : Env} (answer : ExecutionContext → ExecutorResult) {s : Sys}
    {e : ℕ} {d : WorkflowDefinition} (h : s.Live env e d) (hbranch : BranchesAreChildren d)
    (hgoal : ¬ ∃ rows, s.executions e = some rows ∧ rows.AtEnd) :
    ∃ s', Reaches (Sys.step env) (Sys.Serves answer) s s' ∧ s'.Live env e d ∧
      s'.work e < s.work e := by
  obtain ⟨rows, hrows, -⟩ := h.stored
  obtain ⟨n, hkey, hbusy⟩ : ∃ n ∈ rows.nodes.keys,
      (rows.nodes.row n).status = .QUEUED ∨ (rows.nodes.row n).status = .RUNNING := by
    by_contra hnone
    push Not at hnone
    exact hgoal ⟨rows, hrows, hnone⟩
  obtain ⟨s', rows', hrun, hrows', hlt⟩ := h.completes answer hbranch hrows hkey hbusy
  refine ⟨s', hrun, h.run hrun, ?_⟩
  simp only [Sys.work, hrows, hrows', Option.elim_some]
  exact hlt

/-- **Every execution can be finished.** From every state that a run has reached in which
no job was lost, and however the executors answer from then on, workers that go on can
bring a stored execution to the end: none of its nodes is QUEUED or RUNNING, and it is
SUCCEEDED or FAILED.

By descent on the work that is left ([`Sys.work`]). If a node is QUEUED or RUNNING, its
job is named by an entry that has not been acked or by a publish that is owed, because the
run before has lost none ([`DeliveryInv`]); so a completion can be brought about
([`Sys.Live.completes`]), and it lowers the work. In the end no node has work, and then
the execution is not RUNNING: a RUNNING execution with nodes has one that has work
([`ExecInv`]). -/
theorem can_finish (env : Env) (answer : ExecutionContext → ExecutorResult) (s : Sys)
    (hrun : Reaches (Sys.step env) (fun u a => a.atomic = true ∧ u.KeepsJobs a) Sys.init s)
    (e : ℕ) (rows : ExecutionRows) (d : WorkflowDefinition)
    (hrows : s.executions e = some rows) (hd : rows.Of env d) (hnodes : d.node_ids ≠ [])
    (hbranch : BranchesAreChildren d) :
    ∃ s' rows', Reaches (Sys.step env) (Sys.Serves answer) s s' ∧
      s'.executions e = some rows' ∧ rows'.AtEnd ∧
      (rows'.execution.status = .SUCCEEDED ∨ rows'.execution.status = .FAILED) := by
  have hatomic : AtomicInv env s := atomicInv_of_run (hrun.mono fun _ _ h => h.1)
  have hidle : ∃ bound, s.IdleFrom bound := by
    refine (hrun.invariant (fun u => u.Typed env ∧ ∃ bound, u.IdleFrom bound)
      ⟨typed_init, 0, fun _ _ => rfl⟩ ?_).2
    rintro u a v ⟨ht, hidle⟩ - hs
    exact ⟨typed_of_step ht hs, Sys.IdleFrom.exists_step hidle ht hs⟩
  have hlive : s.Live env e d :=
    ⟨hatomic, deliveryInv_of_kept (hrun.mono fun _ _ h => h.2), hidle, rows, hrows, hd⟩
  -- the work that is left is the measure
  obtain ⟨s', hrun', hlive', rows', hrows', hend⟩ := Reaches.descend
    (Sys.Live env e d) (fun u => ∃ r, u.executions e = some r ∧ r.AtEnd) (Sys.work e)
    (fun u hu hgoal => hu.descends answer hbranch hgoal) hlive
  obtain ⟨r, hr, hdr⟩ := hlive'.stored
  rw [hrows', Option.some.injEq] at hr
  subst hr
  refine ⟨s', rows', hrun', hrows', hend, ?_⟩
  have hexec := hlive'.atomic.exec e rows' d hrows' hdr
  rcases hexec.status with hst | hst
  · obtain ⟨n, hn, hbusy⟩ := hexec.busy hst hnodes
    exact absurd hbusy (not_or.mpr (hend n (hdr.2.2 ▸ hn)))
  · exact hst

/-- The guard of the run before, looked at for the first `bound` tasks. -/
def Sys.keeps_jobs_atomic (bound : ℕ) (s : Sys) (a : Action) : Bool :=
  a.atomic && s.keeps_jobs bound a

/-- A worker dies with its claim of `a`; the execution can still be finished,
though every executor fails from then on. -/
theorem can_finish_chain :
    ∃ s s' : Sys, s.node_status 0 "a" = some .RUNNING ∧
      Reaches (Sys.step (env_of chain)) (Sys.Serves fun _ => failed) s s' ∧
      ∃ rows', s'.executions 0 = some rows' ∧ rows'.AtEnd ∧
        (rows'.execution.status = .SUCCEEDED ∨ rows'.execution.status = .FAILED) := by
  have hst : (run (restrict (Sys.step (env_of chain)) fun s a =>
      a.below 2 && s.keeps_jobs_atomic 2 a) Sys.init
        [.start 0 0 none 0, .publish 0, .claim 1 0, .crash 1]).bind
          (fun s => s.node_status 0 "a") = some .RUNNING := by decide +kernel
  obtain ⟨s, hs, hst⟩ := Option.bind_eq_some_iff.mp hst
  have hrun : Reaches (Sys.step (env_of chain)) (fun u a => a.atomic = true ∧ u.KeepsJobs a)
      Sys.init s :=
    reaches_of_checked_run (fun u a hidle h => ⟨Bool.and_elim_left h,
      Sys.keepsJobs_of_check hidle (Bool.and_elim_right h)⟩) hs
  obtain ⟨rows, hrows, -, -⟩ := Sys.node_status_eq_some hst
  obtain ⟨d, hd⟩ := (typed_of_reaches hrun).rows 0 rows hrows
  obtain rfl := of_env_of hd
  have hbranch : BranchesAreChildren chain := by
    intro n node_def hdef htype
    obtain ⟨hmem, rfl⟩ := WorkflowDefinition.node_def_by_id_eq_some hdef
    simp only [chain, List.mem_cons, List.not_mem_nil, or_false] at hmem
    rcases hmem with rfl | rfl <;> exact absurd htype (by decide)
  obtain ⟨s', rows', hrun', hrows', hend, hfinal⟩ :=
    can_finish (env_of chain) (fun _ => failed) s hrun 0 rows chain hrows hd (by decide) hbranch
  exact ⟨s, s', hst, hrun', rows', hrows', hend, hfinal⟩

end EventFlow
