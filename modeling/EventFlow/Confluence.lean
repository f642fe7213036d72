/-
Schedule independence: whatever the order in which messages are delivered and
workers act, complete runs of the workers end in the same rows.

Two things are shown. A worker that holds a claim and is not disturbed brings
it to an end: the executor is found, and the completion does not raise
([`invoke_held`], [`complete_moves`]). So a RUNNING node always has a holder
([`WorkerInv`]), and with no message lost (`DeliveryInv`) a complete run leaves no
node QUEUED or RUNNING. And the executor is always called with the same input,
the outputs of its node's parents, which do not change any more, so that
completions keep `FateInv`.

What is left is an induction along the DAG: at rest, whether a node is skipped,
pending, dead or done is a function of its parents' rows and of nothing else.
-/
import EventFlow.Delivery
import EventFlow.Fate

set_option autoImplicit false

namespace EventFlow

open Transition

/-! ## Runs -/

/-- The workers are not disturbed, and executors are the functions `F`. -/
structure Sys.Deterministic (env : Env) (F : Executors) (s : Sys) (a : Action) : Prop where
  worker : a.worker = true
  result : ∀ t result m context execution rows d node_def, a = .complete t result →
    (s.tasks t).phase = .invoked m context execution →
    s.executions context.execution_id = some rows →
    Sys.lookup env rows context.node_id = some (d, node_def) →
    result = F node_def.type context.config context.workflow_input context.upstream_outputs

/-- Nothing is published any more, nobody holds a claim and no message can be
claimed. -/
structure Sys.Complete (s : Sys) : Prop where
  tasks : ∀ t, (s.tasks t).phase.owes = [] ∧ (s.tasks t).phase.held = none
  stream : ∀ (m : ℕ) (entry : StreamEntry) rows, s.stream[m]? = some entry →
    entry.acked = false → s.executions entry.job.execution_id = some rows →
    (rows.nodes.row entry.job.node_id).status ≠ .QUEUED

theorem Action.atomic_of_worker {a : Action} (h : a.worker = true) : a.atomic = true := by
  cases a <;> first | rfl | cases h

theorem Sys.keepsJobs_of_worker {s : Sys} {a : Action} (h : a.worker = true) : s.KeepsJobs a := by
  cases a <;> trivial

/-! ## A worker that is not disturbed comes to an end -/

section Progress

variable {env : Env} {s s' : Sys} {t m : ℕ} {d : WorkflowDefinition} {rows : ExecutionRows}

theorem ExecutionRows.Of.lookup_ok (hd : rows.Of env d) {n : String} (hn : n ∈ d.node_ids) :
    ∃ node_def, d.node_def_by_id n = some node_def ∧
      Sys.lookup env rows n = some (d, node_def) := by
  obtain ⟨⟨version, hversion, rfl⟩, -, -⟩ := hd
  obtain ⟨node_def, hdef⟩ := WorkflowDefinition.exists_node_def_by_id hn
  refine ⟨node_def, hdef, ?_⟩
  simp only [Sys.lookup, hversion, Option.bind_some, hdef, Option.map_some]

/-- The executor of a node of an accepted definition is registered. -/
theorem ExecutionRows.Of.registered (hd : rows.Of env d) {n : String} {node_def : Node}
    (hdef : d.node_def_by_id n = some node_def) :
    ∃ executor, env.registry.get node_def.type = .ok executor := by
  obtain ⟨result, hresult⟩ := hd.2.1
  exact (validate_workflow_spec hresult).2.1 node_def
    (WorkflowDefinition.node_def_by_id_eq_some hdef).1

/-- A claimed node gets to its executor. -/
theorem invoke_held {k : ℕ} {job : Job} (h : s.invoke env t = some s')
    (hphase : (s.tasks t).phase = .claimed m job k)
    (hrows : s.executions job.execution_id = some rows) (hd : rows.Of env d)
    (hn : job.node_id ∈ d.node_ids) :
    (s'.tasks t).phase.held = some (m, job.execution_id, job.node_id, k) := by
  obtain ⟨node_def, hdef, hlookup⟩ := hd.lookup_ok hn
  obtain ⟨executor, hget⟩ := hd.registered hdef
  unfold Sys.invoke at h
  split at h
  · rename_i m' job' k' htask
    rw [htask] at hphase
    cases hphase
    simp only [hrows, hlookup, hget, Option.some.injEq] at h
    rw [← h]
    simp only [Sys.park, Function.update_self]
    rfl
  · cases h

/-- The completion of a RUNNING node does not raise. It could in two places: `transition`
refuses a step out of another status, and a condition whose path is missing from the
configuration has no target. The first is excluded by the status, the second by the
branches being children. -/
theorem process_job_complete_total {execution : Execution} {e now : ℕ} {n : String}
    {node_def : Node} (hd : rows.Of env d) (hbranch : BranchesAreChildren d)
    (hn : n ∈ d.node_ids) (hdef : d.node_def_by_id n = some node_def)
    (hrun : (rows.nodes.row n).status = .RUNNING) (result : ExecutorResult) :
    ∃ session pubs, process_job_complete (rows.refresh execution e now) d node_def n result
      = .committed (session, pubs) := by
  have hget : (rows.refresh execution e now).nodes.get? n = some (rows.nodes.row n) :=
    Table.get?_of_mem (by rw [ExecutionRows.refresh, hd.2.2]; exact hn)
  have hstep : ∀ {u pubs}, complete_node (rows.refresh execution e now) d node_def n
      (rows.nodes.row n) result = .ok (u, pubs) →
      process_job_complete (rows.refresh execution e now) d node_def n result
        = .committed (u, pubs) := by
    intro u pubs hok
    simp only [process_job_complete, hget, hrun, ne_eq, not_true_eq_false, if_false, hok]
  cases hres : result.success with
  | true =>
      obtain ⟨targets, hT, -⟩ := branch_targets_ok hbranch hdef result.output
      have hps : ∀ c ∈ d.child_ids n, ∀ p ∈ d.parent_ids c,
          p ∈ (rows.refresh execution e now).nodes.keys := by
        intro c _ p hp
        rw [ExecutionRows.refresh, hd.2.2]
        exact hd.wellFormed.parent_mem hp
      obtain ⟨u, pubs, hok, -⟩ := complete_node_success hget hrun hres hT hps
      exact ⟨u, pubs, hstep hok⟩
  | false =>
      by_cases hleft : (rows.nodes.row n).attempt < (rows.nodes.row n).max_attempts
      · obtain ⟨u, hok, -⟩ := complete_node_retry hget hrun hres hleft
        exact ⟨u, [n], hstep hok⟩
      · obtain ⟨u, hok, -⟩ := complete_node_dead hget hrun hres hleft
        exact ⟨u, [], hstep hok⟩

/-- A RUNNING node whose executor has returned is moved on. -/
theorem complete_moves {context : ExecutionContext} {execution : Execution}
    {result : ExecutorResult} (h : s.complete env t result = some s')
    (hphase : (s.tasks t).phase = .invoked m context execution)
    (hrows : s.executions context.execution_id = some rows) (hd : rows.Of env d)
    (hbranch : BranchesAreChildren d) (hn : context.node_id ∈ d.node_ids)
    (hrun : (rows.nodes.row context.node_id).status = .RUNNING) :
    ∃ rows', s'.executions context.execution_id = some rows' ∧
      (rows'.nodes.row context.node_id).status ≠ .RUNNING := by
  obtain ⟨node_def, hdef, hlookup⟩ := hd.lookup_ok hn
  obtain ⟨session, pubs, hdone⟩ : ∃ session pubs, process_job_complete
      (rows.refresh execution context.execution_id s.clock) d node_def context.node_id result
        = .committed (session, pubs) :=
    process_job_complete_total hd hbranch hn hdef hrun result
  simp only [Sys.complete, hphase, hrows, hlookup, hdone, Option.some.injEq] at h
  refine ⟨_, by rw [← h]; exact Function.update_self .., ?_⟩
  obtain ⟨hsteps, -, hcompleted⟩ := process_job_complete_committed (by
    intro c _ p hp
    rw [hd.2.2]
    exact hd.wellFormed.parent_mem hp) hdone
  rw [commit_nodes_of_loaded hsteps.sameFrame rfl]
  exact hcompleted.not_running

end Progress

/-! ## The invariant -/

/-- An executor is called with what its node's parents have left, which does not
change any more. -/
def ContextInv (env : Env) (s : Sys) : Prop :=
  ∀ t m context execution rows d node_def, (s.tasks t).phase = .invoked m context execution →
    s.executions context.execution_id = some rows → rows.Of env d →
    d.node_def_by_id context.node_id = some node_def →
    (rows.nodes.row context.node_id).status.active = true ∧ context.config = node_def.config ∧
      context.workflow_input = rows.execution.input_payload.getD [] ∧
      context.upstream_outputs = upstream_outputs rows.nodes (d.parent_ids context.node_id)

/-- A RUNNING node is held. -/
def HolderInv (env : Env) (s : Sys) : Prop :=
  ∀ e rows d n, s.executions e = some rows → rows.Of env d → BranchesAreChildren d →
    n ∈ d.node_ids → (rows.nodes.row n).status = .RUNNING →
    ∃ t m k, (s.tasks t).phase.held = some (m, e, n, k)

structure WorkerInv (env : Env) (F : Executors) (s : Sys) : Prop where
  atomic : AtomicInv env s
  context : ContextInv env s
  fate : ∀ e rows d, s.executions e = some rows → rows.Of env d → BranchesAreChildren d →
    FateInv F d rows
  fail : ∀ e rows d, s.executions e = some rows → rows.Of env d → FailInv d rows
  holder : HolderInv env s

section Step

variable {env : Env} {F : Executors} {s s' : Sys} {a : Action}

theorem RowsStep.input_payload {e : ℕ} {d : WorkflowDefinition} {rows rows' : ExecutionRows}
    (h : RowsStep s a e d rows rows') :
    rows'.execution.input_payload = rows.execution.input_payload := by
  cases h with
  | quiet hexec => rw [hexec]
  | _ => rfl

theorem ContextInv.effect (h : ContextInv env s) (hinv : AtomicInv env s)
    (heff : Effect env s a s') (ha : a.atomic = true) : ContextInv env s' := by
  intro t m context execution rows' d node_def hphase hrows' hd' hdef
  rcases heff.invoked hphase with hphase |
    ⟨job, attempt, rows, d₀, node_def₀, hclaimed, hrows, hlookup, rfl, rfl, hsame⟩
  · rcases heff.rowsStep hinv.typed ha hrows' with
      ⟨_, _, _, _, _, _, -, he, -, -⟩ | ⟨rows, d₀, hrows, hd, hstep⟩
    · -- nobody runs a node of an execution that is only now created
      have := hinv.typed.tasks t context.execution_id (by simp [hphase, Phase.execution_ids])
      omega
    · obtain rfl := (hstep.of hd).unique hd'
      obtain ⟨hact, hconfig, hin, hup⟩ :=
        h t m context execution rows _ node_def hphase hrows hd hdef
      refine ⟨hstep.stays_active hact, hconfig, by rw [hin, hstep.input_payload], ?_⟩
      rw [hup]
      refine (upstream_outputs_congr ?_ fun p hp => ?_).symm
      · rw [(hstep.of hd).2.2, hd.2.2]
      · -- parents of a node with work have succeeded
        have hst := (hinv.dag _ rows _ hrows hd).active _ hact p hp
        obtain ⟨id, hrow⟩ := hstep.settled_row (.inl hst)
        rw [hrow]
  · rw [hsame] at hrows'
    obtain rfl := Option.some.inj (hrows.symm.trans hrows')
    obtain ⟨rfl, hdef₀⟩ := hd'.lookup hlookup
    obtain rfl := Option.some.inj (hdef₀.symm.trans hdef)
    exact ⟨(hinv.claimed t m job attempt rows hclaimed hrows).2, rfl, rfl, rfl⟩

/-- A completion comes with the expected result. -/
theorem WorkerInv.expected_result {t m e : ℕ} {result : ExecutorResult}
    {context : ExecutionContext} {execution : Execution} {rows : ExecutionRows}
    {d : WorkflowDefinition} {node_def : Node} (h : WorkerInv env F s)
    (hdet : Sys.Deterministic env F s a) (ha : a = .complete t result)
    (hphase : (s.tasks t).phase = .invoked m context execution) (he : context.execution_id = e)
    (hrows : s.executions e = some rows) (hd : rows.Of env d)
    (hdef : d.node_def_by_id context.node_id = some node_def) :
    result = expected F d rows context.node_id node_def := by
  subst he
  obtain ⟨hmem, hid⟩ := WorkflowDefinition.node_def_by_id_eq_some hdef
  obtain ⟨node_def', hdef', hlookup⟩ :=
    hd.lookup_ok (WorkflowDefinition.mem_node_ids.mpr ⟨node_def, hmem, hid⟩)
  obtain rfl := Option.some.inj (hdef.symm.trans hdef')
  obtain ⟨-, hconfig, hin, hup⟩ :=
    h.context t m context execution rows d node_def hphase hrows hd hdef
  rw [hdet.result t result m context execution rows d node_def ha hphase hrows hlookup, hconfig,
    hin, hup]
  rfl

/-- Whoever claims a node holds it. The claim commits RUNNING and parks the task as its
holder in one step, so the holder is the task that has acted. -/
theorem Effect.holder_of_claims {e k : ℕ} {n : String} {rows' : ExecutionRows}
    (heff : Effect env s a s') (ha : a.worker = true) (hclaim : s.claims a = some (e, n, k))
    (hrows' : s'.executions e = some rows') (hrun : (rows'.nodes.row n).status = .RUNNING) :
    ∃ t m k, (s'.tasks t).phase.held = some (m, e, n, k) := by
  cases a with
  | claim t m =>
      simp only [Sys.claims] at hclaim
      split at hclaim
      · rename_i entry hentry
        split at hclaim
        · rename_i rows hrows
          split at hclaim
          · rename_i hq
            cases hclaim
            -- a step that leaves the row alone leaves it QUEUED
            have hsame : s'.executions = s.executions → False := fun heq => by
              rw [heq, hrows, Option.some.injEq] at hrows'
              rw [← hrows', hq] at hrun
              cases hrun
            cases heff with
            | refused hr => rcases hr with ⟨_, _, _, _, h⟩ | ⟨_, _, _, _, h⟩ | ⟨_, _, h⟩ <;> cases h
            | discard => exact (hsame rfl).elim
            | discard_logged hr => rcases hr with h | h <;> cases h
            | @claim _ t₀ m₀ entry' rows₀ session hr hidle hentry' =>
                rcases hr with ⟨h, -⟩ | ⟨h, -⟩
                · cases h
                  obtain rfl := Option.some.inj (hentry.symm.trans hentry')
                  refine ⟨t, m, (rows₀.nodes.row entry.job.node_id).attempt, ?_⟩
                  simp only [Sys.commit, Function.update_self]
                  rfl
                · cases h
            | stop => exact (hsame rfl).elim
          · cases hclaim
        · cases hclaim
      · cases hclaim
  | recover_claim => cases ha
  | reclaim => cases ha
  | _ => cases hclaim

/-- A task that holds a node has claimed it or runs it. -/
theorem Phase.held_cases {phase : Phase} {m e k : ℕ} {n : String}
    (h : phase.held = some (m, e, n, k)) :
    (∃ job, phase = .claimed m job k ∧ job.execution_id = e ∧ job.node_id = n) ∨
      ∃ context execution, phase = .invoked m context execution ∧
        context.execution_id = e ∧ context.node_id = n := by
  cases phase with
  | claimed m' job k' =>
      cases h
      exact .inl ⟨job, rfl, rfl, rfl⟩
  | invoked m' context execution =>
      cases h
      exact .inr ⟨context, execution, rfl, rfl, rfl⟩
  | _ => cases h

/-- A task that holds a claim waits, gets to its executor, or completes. The phases in
which a claim is held are `claimed` and `invoked`; the actions that need another phase are
not possible, and of the two that are, each leads to the next phase. -/
theorem Sys.act_of_held {t m e k : ℕ} {n : String} (h : s.act env a = some s')
    (hheld : (s.tasks t).phase.held = some (m, e, n, k)) (ha : a.worker = true)
    (hta : a.task = some t) :
    (∃ job, a = .invoke t ∧ (s.tasks t).phase = .claimed m job k ∧ job.execution_id = e ∧
      job.node_id = n) ∨
    (∃ result context execution, a = .complete t result ∧
      (s.tasks t).phase = .invoked m context execution ∧ context.execution_id = e ∧
      context.node_id = n) ∨
    (s'.tasks t).phase.held = some (m, e, n, k) := by
  -- most actions of `t` need another phase
  have hphase := Phase.held_cases hheld
  have hne : ∀ {p : Phase}, p.held = none → (s.tasks t).phase ≠ p := by
    rintro p hp rfl
    rw [hp] at hheld
    cases hheld
  cases a with
  | start t' =>
      cases hta
      simp only [Sys.act, Sys.start] at h
      split at h
      · rename_i hidle
        exact absurd hidle (hne rfl)
      · cases h
  | claim t' m' =>
      cases hta
      simp only [Sys.act, Sys.claim] at h
      split at h
      · rename_i hidle _
        exact absurd hidle (hne rfl)
      · cases h
  | invoke t' =>
      cases hta
      rcases hphase with ⟨job, hp, he, hn⟩ | ⟨context, execution, hp, -⟩
      · exact .inl ⟨job, rfl, hp, he, hn⟩
      · simp only [Sys.act, Sys.invoke] at h
        split at h
        · rename_i htask
          rw [htask] at hp
          cases hp
        · cases h
  | complete t' result =>
      cases hta
      rcases hphase with ⟨job, hp, -⟩ | ⟨context, execution, hp, he, hn⟩
      · simp only [Sys.act, Sys.complete, hp] at h
        cases h
      · exact .inr (.inl ⟨result, context, execution, rfl, hp, he, hn⟩)
  | publish t' =>
      cases hta
      simp only [Sys.act, Sys.publish] at h
      split at h
      · rename_i htask
        exact absurd (by rw [htask]) (hne rfl)
      · cases h
  | finish t' =>
      cases hta
      simp only [Sys.act, Sys.finish] at h
      split at h
      · rename_i htask
        exact absurd (by rw [htask]) (hne rfl)
      · cases h
  | flush t' =>
      cases hta
      simp only [Sys.act, Sys.flush] at h
      split at h
      · rename_i htask
        split at h
        · cases h
          rw [htask] at hheld
          exact .inr (.inr (by simpa only [Function.update_self] using hheld))
        · cases h
      · cases h
  | ack t' =>
      cases hta
      simp only [Sys.act, Sys.ack] at h
      split at h
      · rename_i htask
        exact absurd (by rw [htask]) (hne rfl)
      · cases h
  | reply t' =>
      cases hta
      simp only [Sys.act, Sys.reply] at h
      split at h
      · rename_i htask
        exact absurd (by rw [htask]) (hne rfl)
      · cases h
  | _ => cases ha

/-- One step keeps a holder for every RUNNING node. A node that becomes RUNNING has just
been claimed. One that stays RUNNING has its old holder, unless that task was the one that
acted: then it has gone on to the executor and holds the node still, or it has completed
it, and a completion leaves no RUNNING node behind. -/
theorem HolderInv.act (h : HolderInv env s) (hinv : AtomicInv env s)
    (hact : s.act env a = some s') (ha : a.worker = true) : HolderInv env s' := by
  intro e rows' d n hrows' hd' hbranch hn hrun
  have heff := effect_of_act hinv.typed hact
  rcases heff.rowsStep hinv.typed (Action.atomic_of_worker ha) hrows' with
    ⟨_, _, _, _, _, _, -, he, hok, rfl⟩ | ⟨rows, d₀, hrows, hd, hstep⟩
  · -- nothing of a new execution is RUNNING
    obtain ⟨d₀, -, hstarted⟩ := started_of_start hok
    rw [hstarted.node_status] at hrun
    split at hrun <;> cases hrun
  · obtain rfl := (hstep.of hd).unique hd'
    -- either the node is claimed by this step, or it was RUNNING before and has a holder
    rcases heff.nodeStep hrows' with ⟨he, -⟩ | ⟨rows₀, hrows₀, -, hnode⟩
    · have := hinv.typed.lt hrows
      omega
    rw [hrows, Option.some.injEq] at hrows₀
    subst hrows₀
    cases hnode n with
    | same hst hatt =>
        have hrun₀ : (rows.nodes.row n).status = .RUNNING := hst ▸ hrun
        obtain ⟨t, m, k, hheld⟩ := h e rows _ n hrows hd hbranch hn hrun₀
        by_cases hta : a.task = some t
        · rcases Sys.act_of_held hact hheld ha hta with ⟨job, rfl, hp, rfl, rfl⟩ |
            ⟨result, context, execution, rfl, hp, rfl, rfl⟩ | hheld'
          · exact ⟨t, m, k, invoke_held hact hp hrows hd hn⟩
          · -- the completion would have moved it
            obtain ⟨rows₁, hrows₁, hmoved⟩ := complete_moves hact hp hrows hd hbranch hn hrun₀
            rw [hrows', Option.some.injEq] at hrows₁
            exact absurd hrun (hrows₁ ▸ hmoved)
          · exact ⟨t, m, k, hheld'⟩
        · exact ⟨t, m, k, by rw [heff.tasks_of_ne hta, hheld]⟩
    | claim k hclaim hst hatt => exact heff.holder_of_claims ha hclaim hrows' hrun
    | revert t m entry hrevert =>
        rw [hrevert] at ha
        cases ha
    | skip hold hst hatt =>
        rw [hst] at hrun
        cases hrun
    | queue hold hst hatt howed =>
        rw [hst] at hrun
        cases hrun
    | finish hold hst hatt =>
        rcases hst with hst | hst <;> rw [hst] at hrun <;> cases hrun

/-- **One step of a worker.** The parts of the invariant are kept one by one. The fates of
the nodes need that the result of a completion is the one that is expected, and this is
where the context comes in: it was built from the outputs of parents which had succeeded
by then and do not change any more. -/
theorem WorkerInv.act (h : WorkerInv env F s) (hact : s.act env a = some s')
    (hdet : Sys.Deterministic env F s a) : WorkerInv env F s' := by
  have ha := Action.atomic_of_worker hdet.worker
  have heff := effect_of_act h.atomic.typed hact
  have hinv' := h.atomic.effect heff ha
  refine ⟨hinv', h.context.effect h.atomic heff ha, fun e rows' d hrows' hd' hbranch => ?_,
    fun e rows' d hrows' hd' => ?_, h.holder.act h.atomic hact hdet.worker⟩
  · rcases heff.rowsStep h.atomic.typed ha hrows' with
      ⟨_, _, _, _, _, _, -, -, hok, rfl⟩ | ⟨rows, d₀, hrows, hd, hstep⟩
    · obtain ⟨d₀, hd, hstarted⟩ := started_of_start hok
      obtain rfl := hd.unique hd'
      exact hstarted.fateInv
    · obtain rfl := (hstep.of hd).unique hd'
      refine hstep.fateInv hdet.worker hd (h.atomic.dag e rows _ hrows hd) hbranch ?_
        (h.fate e rows _ hrows hd hbranch)
      intro t result m context execution node_def hcomplete hphase he hdef
      exact h.expected_result hdet hcomplete hphase he hrows hd hdef
  · rcases heff.rowsStep h.atomic.typed ha hrows' with
      ⟨_, _, _, _, _, _, -, -, hok, rfl⟩ | ⟨rows, d₀, hrows, hd, hstep⟩
    · obtain ⟨d₀, hd, hstarted⟩ := started_of_start hok
      obtain rfl := hd.unique hd'
      exact hstarted.failInv
    · obtain rfl := (hstep.of hd).unique hd'
      exact hstep.failInv hdet.worker hd (hinv'.dag e rows' _ hrows' hd')
        (h.fail e rows _ hrows hd)

/-- **Every run of the workers.** Nothing is stored at the start, so there is nothing to
show there. -/
theorem workerInv_of_run (hrun : Reaches (Sys.step env) (Sys.Deterministic env F) Sys.init s) :
    WorkerInv env F s := by
  refine hrun.invariant (WorkerInv env F) ?_ fun u a v hu hdet hs => ?_
  · refine ⟨atomicInv_init, ?_, ?_, ?_, ?_⟩
    · intro t m context execution rows d node_def hphase
      cases hphase
    · intro e rows d hrows
      cases hrows
    · intro e rows d hrows
      cases hrows
    · intro e rows d n hrows
      cases hrows
  · obtain ⟨w, hw, rfl⟩ := Option.map_eq_some_iff.mp hs
    have hinv := hu.act hw hdet
    exact ⟨hu.atomic.step hs (Action.atomic_of_worker hdet.worker), hinv.context, hinv.fate,
      hinv.fail, hinv.holder⟩

end Step

/-! ## Agreement along the DAG -/

/-- What `schedule_independent` compares of two rows of a node. -/
def NodeExecution.Agrees (node node' : NodeExecution) : Prop :=
  node.status = node'.status ∧ node.attempt = node'.attempt ∧
    node.output_payload = node'.output_payload

/-- How a node can end whose executor returns `res`, with `limit` attempts, and
whose parents have all succeeded if `ready`. -/
inductive Outcome (res : ExecutorResult) (limit : ℕ) (ready : Prop) (node : NodeExecution) : Prop
  | skipped (hst : node.status = .SKIPPED) (hatt : node.attempt = 0)
      (hout : node.output_payload = none)
  | pending (hwait : ¬ ready) (hst : node.status = .PENDING) (hatt : node.attempt = 0)
      (hout : node.output_payload = none)
  | succeeded (hready : ready) (hres : res.success = true) (hst : node.status = .SUCCEEDED)
      (hatt : node.attempt = 1) (hout : node.output_payload = some res.output)
  | dead (hready : ready) (hres : res.success = false) (hst : node.status = .DEAD_LETTERED)
      (hatt : node.attempt = max 1 limit) (hout : node.output_payload = none)

/-- An outcome is determined by its parameters and by whether the node is skipped. The
four outcomes exclude each other: whether a node is skipped is given, whether it waits
depends on its parents, and whether it has succeeded on the result. So the mixed cases are
contradictions, and in the others status, attempt and output are values of the same
function. -/
theorem Outcome.agrees {res : ExecutorResult} {limit : ℕ} {ready : Prop}
    {node node' : NodeExecution} (h : Outcome res limit ready node)
    (h' : Outcome res limit ready node')
    (hskip : node.status = .SKIPPED ↔ node'.status = .SKIPPED) : node.Agrees node' := by
  cases h with
  | skipped hst hatt hout =>
      have hst' := hskip.mp hst
      cases h' with
      | skipped _ hatt' hout' =>
          exact ⟨hst.trans hst'.symm, hatt.trans hatt'.symm, hout.trans hout'.symm⟩
      | pending _ hne => rw [hne] at hst'; cases hst'
      | succeeded _ _ hne => rw [hne] at hst'; cases hst'
      | dead _ _ hne => rw [hne] at hst'; cases hst'
  | pending hwait hst hatt hout =>
      cases h' with
      | skipped hst' => rw [hskip.mpr hst'] at hst; cases hst
      | pending _ hst' hatt' hout' =>
          exact ⟨hst.trans hst'.symm, hatt.trans hatt'.symm, hout.trans hout'.symm⟩
      | succeeded hready => exact absurd hready hwait
      | dead hready => exact absurd hready hwait
  | succeeded hready hres hst hatt hout =>
      cases h' with
      | skipped hst' => rw [hskip.mpr hst'] at hst; cases hst
      | pending hwait => exact absurd hready hwait
      | succeeded _ _ hst' hatt' hout' =>
          exact ⟨hst.trans hst'.symm, hatt.trans hatt'.symm, hout.trans hout'.symm⟩
      | dead _ hres' => rw [hres] at hres'; cases hres'
  | dead hready hres hst hatt hout =>
      cases h' with
      | skipped hst' => rw [hskip.mpr hst'] at hst; cases hst
      | pending hwait => exact absurd hready hwait
      | succeeded _ hres' => rw [hres] at hres'; cases hres'
      | dead _ _ hst' hatt' hout' =>
          exact ⟨hst.trans hst'.symm, hatt.trans hatt'.symm, hout.trans hout'.symm⟩

/-- The rows of an execution of `d` at the end of a complete run. -/
structure AtRest (F : Executors) (d : WorkflowDefinition) (rows : ExecutionRows) : Prop where
  keys : rows.nodes.keys = d.node_ids
  dag : DagInv d rows.nodes
  exec : ExecInv d rows
  fate : FateInv F d rows
  fail : FailInv d rows
  quiet : ∀ n ∈ d.node_ids,
    (rows.nodes.row n).status ≠ .QUEUED ∧ (rows.nodes.row n).status ≠ .RUNNING

section AtRest

variable {F : Executors} {d : WorkflowDefinition} {rows rows₁ rows₂ : ExecutionRows} {n : String}

theorem AtRest.outcome (h : AtRest F d rows) {node_def : Node}
    (hdef : d.node_def_by_id n = some node_def) (hn : n ∈ d.node_ids) :
    Outcome (expected F d rows n node_def) (initial_node d n).max_attempts
      (ParentsSucceeded d rows.nodes n) (rows.nodes.row n) := by
  have hfated := h.fate.row n node_def hdef
  obtain ⟨hqueued, hrunning⟩ := h.quiet n hn
  obtain ⟨hfailed, hretrying⟩ := h.dag.settled n
  cases hst : (rows.nodes.row n).status with
  | PENDING =>
      obtain ⟨p, hp, hne⟩ := h.dag.pending n hn hst
      obtain ⟨hatt, hout⟩ := hfated.waiting (.inl hst)
      exact .pending (fun hall => hne (hall p hp)) hst hatt hout
  | SKIPPED =>
      obtain ⟨hatt, hout⟩ := hfated.waiting (.inr hst)
      exact .skipped hst hatt hout
  | SUCCEEDED =>
      obtain ⟨hatt, hres, hout⟩ := hfated.succeeded hst
      exact .succeeded (h.dag.active n (by rw [hst]; rfl)) hres hst hatt hout
  | DEAD_LETTERED =>
      obtain ⟨hatt, hres, hout⟩ := hfated.dead hst
      exact .dead (h.dag.active n (by rw [hst]; rfl)) hres hst hatt hout
  | QUEUED => exact absurd hst hqueued
  | RUNNING => exact absurd hst hrunning
  | FAILED => exact absurd hst hfailed
  | RETRYING => exact absurd hst hretrying

/-- Whether a node is skipped is decided by its parents. -/
theorem AtRest.skipped_of_agrees (h₁ : AtRest F d rows₁) (h₂ : AtRest F d rows₂)
    (hparents : ∀ p ∈ d.parent_ids n, (rows₁.nodes.row p).Agrees (rows₂.nodes.row p))
    (hst : (rows₁.nodes.row n).status = .SKIPPED) : (rows₂.nodes.row n).status = .SKIPPED := by
  obtain ⟨p, hp, hskip | hun⟩ := h₁.fate.skipped n hst
  · refine h₂.dag.skipped p n (WorkflowDefinition.mem_child_ids_iff_mem_parent_ids.mpr hp) ?_
    rw [← (hparents p hp).1, hskip]
  · obtain ⟨hst, -, hout⟩ := hparents p hp
    exact h₂.fate.unselected p n (hun.congr hst.symm hout.symm)

theorem NodeExecution.Agrees.symm {node node' : NodeExecution} (h : node.Agrees node') :
    node'.Agrees node :=
  ⟨h.1.symm, h.2.1.symm, h.2.2.symm⟩

theorem parentsSucceeded_of_agrees
    (hparents : ∀ p ∈ d.parent_ids n, (rows₁.nodes.row p).Agrees (rows₂.nodes.row p)) :
    ParentsSucceeded d rows₁.nodes n ↔ ParentsSucceeded d rows₂.nodes n := by
  constructor
  · intro h p hp
    rw [← (hparents p hp).1]
    exact h p hp
  · intro h p hp
    rw [(hparents p hp).1]
    exact h p hp

/-- **Rows at rest are determined**, by induction along the DAG. Whether a node is
skipped, waits, or has run, and with which input, is a function of its parents' rows.
These agree by induction, so the expected results are the same, and an outcome is
determined by them ([`Outcome.agrees`]). -/
theorem AtRest.agrees (hd : WellFormed d) (h₁ : AtRest F d rows₁) (h₂ : AtRest F d rows₂)
    (hin : rows₁.execution.input_payload = rows₂.execution.input_payload) (n : String) :
    n ∈ d.node_ids → (rows₁.nodes.row n).Agrees (rows₂.nodes.row n) := by
  refine hd.induction (P := fun n => n ∈ d.node_ids →
    (rows₁.nodes.row n).Agrees (rows₂.nodes.row n)) (fun n ih hn => ?_) n
  have hparents : ∀ p ∈ d.parent_ids n, (rows₁.nodes.row p).Agrees (rows₂.nodes.row p) :=
    fun p hp => ih p hp (hd.parent_mem hp)
  obtain ⟨node_def, hdef⟩ := WorkflowDefinition.exists_node_def_by_id hn
  have ho₁ := h₁.outcome hdef hn
  have ho₂ := h₂.outcome hdef hn
  -- the parameters of the two outcomes are the same
  rw [expected_congr hin (h₁.keys.trans h₂.keys.symm) fun p hp => (hparents p hp).2.2,
    parentsSucceeded_of_agrees hparents] at ho₁
  exact ho₁.agrees ho₂ ⟨h₁.skipped_of_agrees h₂ hparents,
    h₂.skipped_of_agrees h₁ fun p hp => (hparents p hp).symm⟩

/-- The execution has failed if a node is dead, has succeeded if none is, and
an execution without nodes stays RUNNING. -/
theorem AtRest.execution_status (h : AtRest F d rows) :
    (d.node_ids = [] ∧ rows.execution.status = .RUNNING) ∨
      (d.node_ids ≠ [] ∧
        (∃ n ∈ d.node_ids, (rows.nodes.row n).status = .DEAD_LETTERED) ∧
          rows.execution.status = .FAILED) ∨
      (d.node_ids ≠ [] ∧
        (¬ ∃ n ∈ d.node_ids, (rows.nodes.row n).status = .DEAD_LETTERED) ∧
          rows.execution.status = .SUCCEEDED) := by
  by_cases hnil : d.node_ids = []
  · exact .inl ⟨hnil, h.fail.empty hnil⟩
  · by_cases hdead : ∃ n ∈ d.node_ids, (rows.nodes.row n).status = .DEAD_LETTERED
    · obtain ⟨n, hn, hst⟩ := hdead
      exact .inr (.inl ⟨hnil, ⟨n, hn, hst⟩, h.exec.dead n hn hst⟩)
    · refine .inr (.inr ⟨hnil, hdead, ?_⟩)
      rcases h.exec.status with hrun | hok | hfail
      · obtain ⟨n, hn, hbusy⟩ := h.exec.busy hrun hnil
        exact absurd hbusy (not_or.mpr (h.quiet n hn))
      · exact hok
      · exact absurd (h.fail.failed hfail) hdead

theorem AtRest.execution_agrees (hd : WellFormed d) (h₁ : AtRest F d rows₁)
    (h₂ : AtRest F d rows₂)
    (hin : rows₁.execution.input_payload = rows₂.execution.input_payload) :
    rows₁.execution.status = rows₂.execution.status := by
  have hdead : (∃ n ∈ d.node_ids, (rows₁.nodes.row n).status = .DEAD_LETTERED) ↔
      ∃ n ∈ d.node_ids, (rows₂.nodes.row n).status = .DEAD_LETTERED :=
    exists_congr fun n => and_congr_right fun hn => by rw [(h₁.agrees hd h₂ hin n hn).1]
  rcases h₁.execution_status with ⟨hnil, hst⟩ | ⟨hnil, hone, hst⟩ | ⟨hnil, hnone, hst⟩ <;>
    rcases h₂.execution_status with ⟨hnil', hst'⟩ | ⟨hnil', hone', hst'⟩ | ⟨hnil', hnone', hst'⟩
  · rw [hst, hst']
  · exact absurd hnil hnil'
  · exact absurd hnil hnil'
  · exact absurd hnil' hnil
  · rw [hst, hst']
  · exact absurd (hdead.mp hone) hnone'
  · exact absurd hnil' hnil
  · exact absurd (hdead.mpr hone') hnone
  · rw [hst, hst']

end AtRest

/-- A complete run leaves its executions at rest: a QUEUED node would be named by
a message or a publish that is owed, a RUNNING one would be held. -/
theorem atRest_of_complete {env : Env} {F : Executors} {s : Sys} {e : ℕ} {rows : ExecutionRows}
    {d : WorkflowDefinition}
    (hrun : Reaches (Sys.step env) (Sys.Deterministic env F) Sys.init s) (hc : s.Complete)
    (hrows : s.executions e = some rows) (hd : rows.Of env d) (hbranch : BranchesAreChildren d) :
    AtRest F d rows := by
  have hinv := workerInv_of_run hrun
  have hdelivery : DeliveryInv s := deliveryInv_of_kept
    (hrun.mono fun u a hdet => Sys.keepsJobs_of_worker hdet.worker)
  refine ⟨hd.2.2, hinv.atomic.dag e rows d hrows hd, hinv.atomic.exec e rows d hrows hd,
    hinv.fate e rows d hrows hd hbranch, hinv.fail e rows d hrows hd, fun n hn => ⟨?_, ?_⟩⟩
  · intro hst
    rcases hdelivery.named e rows hrows n (hd.2.2 ▸ hn) (.inl hst) with
      ⟨i, entry, hentry, hacked, rfl, rfl, -⟩ | ⟨t, job, hjob, -⟩
    · exact hc.stream i entry rows hentry hacked hrows hst
    · rw [(hc.tasks t).1] at hjob
      cases hjob
  · intro hst
    obtain ⟨t, m, k, hheld⟩ := hinv.holder e rows d n hrows hd hbranch hn hst
    rw [(hc.tasks t).2] at hheld
    cases hheld

/-- **Schedule independence.** Two complete runs of undisturbed workers, with executors
that are functions of their input, leave two executions of one definition with one input
in the same rows, as far as status, attempt and output of the nodes and the status of the
execution go. Both runs end in rows at rest ([`atRest_of_complete`]): no node has work,
every node that has run has been given the expected result, and one that has not had a
reason. Nothing else about the runs is used, and rows at rest are determined by the
definition, the input and the executors ([`AtRest.agrees`]). The execution's status is
then determined by its nodes. -/
theorem schedule_independent (env : Env) (F : Executors) (s₁ s₂ : Sys)
    (hrun₁ : Reaches (Sys.step env) (Sys.Deterministic env F) Sys.init s₁)
    (hrun₂ : Reaches (Sys.step env) (Sys.Deterministic env F) Sys.init s₂)
    (hc₁ : s₁.Complete) (hc₂ : s₂.Complete) (e₁ e₂ : ℕ) (rows₁ rows₂ : ExecutionRows)
    (hrows₁ : s₁.executions e₁ = some rows₁) (hrows₂ : s₂.executions e₂ = some rows₂)
    (d : WorkflowDefinition) (hd₁ : rows₁.Of env d) (hd₂ : rows₂.Of env d)
    (hbranch : BranchesAreChildren d)
    (hinput : rows₁.execution.input_payload = rows₂.execution.input_payload) :
    (∀ n ∈ d.node_ids, (rows₁.nodes.row n).status = (rows₂.nodes.row n).status ∧
      (rows₁.nodes.row n).attempt = (rows₂.nodes.row n).attempt ∧
      (rows₁.nodes.row n).output_payload = (rows₂.nodes.row n).output_payload) ∧
    rows₁.execution.status = rows₂.execution.status := by
  have h₁ := atRest_of_complete hrun₁ hc₁ hrows₁ hd₁ hbranch
  have h₂ := atRest_of_complete hrun₂ hc₂ hrows₂ hd₂ hbranch
  exact ⟨fun n hn => h₁.agrees hd₁.wellFormed h₂ hinput n hn,
    h₁.execution_agrees hd₁.wellFormed h₂ hinput⟩

/-! ### An instance -/

/-- The guard of undisturbed workers, evaluated. -/
def Sys.deterministic (env : Env) (F : Executors) (s : Sys) (a : Action) : Bool :=
  a.worker && match a with
    | .complete t result =>
      match (s.tasks t).phase with
      | .invoked _ context _ =>
        match s.executions context.execution_id with
        | some rows =>
          match Sys.lookup env rows context.node_id with
          | some (_, node_def) => decide (result =
              F node_def.type context.config context.workflow_input context.upstream_outputs)
          | none => true
        | none => true
      | _ => true
    | _ => true

theorem Sys.deterministic_of_check {env : Env} {F : Executors} {s : Sys} {a : Action}
    (h : s.deterministic env F a = true) : Sys.Deterministic env F s a := by
  refine ⟨Bool.and_elim_left h, ?_⟩
  rintro t result m context execution rows d node_def rfl hphase hrows hlookup
  have hres := Bool.and_elim_right h
  simpa only [hphase, hrows, hlookup, decide_eq_true_eq] using hres

/-- Completeness, evaluated on the first few tasks. -/
def Sys.complete_below (bound : ℕ) (s : Sys) : Bool :=
  (List.range bound).all (fun t => (s.tasks t).phase.owes.isEmpty && (s.tasks t).phase.held.isNone)
    && s.stream.all fun entry => entry.acked ||
      match s.executions entry.job.execution_id with
      | some rows => decide ((rows.nodes.row entry.job.node_id).status ≠ .QUEUED)
      | none => true

theorem Sys.complete_of_below {bound : ℕ} {s : Sys} (hidle : s.IdleFrom bound)
    (h : s.complete_below bound = true) : s.Complete := by
  have htasks := List.all_eq_true.mp (Bool.and_elim_left h)
  have hstream := List.all_eq_true.mp (Bool.and_elim_right h)
  refine ⟨fun t => ?_, fun m entry rows hentry hacked hrows => ?_⟩
  · by_cases ht : t < bound
    · have hboth := htasks t (List.mem_range.mpr ht)
      rw [Bool.and_eq_true, List.isEmpty_iff, Option.isNone_iff_eq_none] at hboth
      exact hboth
    · rw [hidle t (Nat.le_of_not_lt ht)]
      exact ⟨rfl, rfl⟩
  · have hentry := hstream entry (List.mem_of_getElem? hentry)
    simpa only [hacked, Bool.false_or, hrows, decide_eq_true_eq] using hentry

/-- `c` selects `a`, which also waits for `r`, and not `b`. -/
def fork : WorkflowDefinition where
  name := "fork"
  nodes := [{ node_a with id := "r", id_length := by decide },
    { id := "c", type := "condition",
      config := [("true_path", .str "a"), ("false_path", .str "b")] },
    node_a, node_b]
  edges := [{ from_node := "r", to_node := "a" }, { from_node := "c", to_node := "a" },
    { from_node := "c", to_node := "b" }]
  default_retry_policy := some once

theorem fork_branchesAreChildren : BranchesAreChildren fork := by
  intro n node_def hdef htype
  obtain ⟨hmem, rfl⟩ := WorkflowDefinition.node_def_by_id_eq_some hdef
  simp only [fork, List.mem_cons, List.not_mem_nil, or_false] at hmem
  rcases hmem with rfl | rfl | rfl | rfl
  · exact absurd htype (by decide)
  · exact ⟨"a", "b", rfl, by decide, rfl, by decide⟩
  · exact absurd htype (by decide)
  · exact absurd htype (by decide)

/-- The result of a condition that selects `a`. -/
def selected : ExecutorResult := { success := true, output := [("next_node", .str "a")] }

/-- Conditions select `a`, tasks succeed. -/
def fork_executors : Executors := fun type _ _ _ =>
  if type = "condition" then selected else succeeded

/-- Task `t` takes entry `m` up to the commit of its completion. -/
def take_entry (t m : ℕ) (result : ExecutorResult) : List Action :=
  [.claim t m, .flush t, .flush t, .invoke t, .complete t result]

/-- `r` first. -/
def fork_run : List Action :=
  [.start 0 0 none 0, .publish 0, .publish 0] ++ take_entry 1 0 succeeded ++
    take_entry 2 1 selected ++ [.publish 2] ++ take_entry 3 2 succeeded

/-- `c` first, both side by side, and `r` delivered twice. -/
def fork_run' : List Action :=
  [.start 0 0 none 0, .publish 0, .publish 0, .claim 2 1, .claim 1 0, .flush 2, .flush 2,
    .invoke 2, .complete 2 selected, .flush 1, .flush 1, .invoke 1, .claim 4 0,
    .complete 1 succeeded, .publish 1] ++ take_entry 3 2 succeeded

/-- The state that a list of actions of undisturbed workers leads to. -/
def fork_state (as : List Action) : Option Sys :=
  run (restrict (Sys.step (env_of fork)) fun u a =>
    a.below 5 && u.deterministic (env_of fork) fork_executors a) Sys.init as

/-- What is read off the end of a run: it is complete, there was no input, and `b`
is skipped. -/
def fork_end (s : Sys) : Bool :=
  s.complete_below 5 &&
    (decide ((s.executions 0).map (fun rows => rows.execution.input_payload) = some none) &&
      decide (s.node_status 0 "b" = some .SKIPPED))

theorem fork_state_spec {as : List Action} {s : Sys} (hs : fork_state as = some s)
    (hend : fork_end s = true) :
    Reaches (Sys.step (env_of fork)) (Sys.Deterministic (env_of fork) fork_executors) Sys.init s ∧
      s.Complete ∧ ∃ rows, s.executions 0 = some rows ∧ rows.Of (env_of fork) fork ∧
        rows.execution.input_payload = none ∧ (rows.nodes.row "b").status = .SKIPPED := by
  simp only [fork_end, Bool.and_eq_true, decide_eq_true_eq] at hend
  obtain ⟨hc, hin, hst⟩ := hend
  have hrun := reaches_of_checked_run (fun u a _ h => Sys.deterministic_of_check h) hs
  obtain ⟨rows, hrows, -, hb⟩ := Sys.node_status_eq_some hst
  obtain ⟨d, hd⟩ := (typed_of_reaches hrun).rows 0 rows hrows
  obtain rfl := of_env_of hd
  rw [hrows, Option.map_some, Option.some.injEq] at hin
  exact ⟨hrun, Sys.complete_of_below (idleFrom_of_run hs) hc, rows, hrows, hd, hin, hb⟩

/-- Two schedules of `fork`. -/
theorem schedule_independent_fork :
    ∃ s₁ s₂ rows₁ rows₂, fork_state fork_run = some s₁ ∧ fork_state fork_run' = some s₂ ∧
      s₁.executions 0 = some rows₁ ∧ s₂.executions 0 = some rows₂ ∧
      (rows₁.nodes.row "b").status = .SKIPPED ∧
      (rows₁.nodes.row "a").output_payload = (rows₂.nodes.row "a").output_payload ∧
      rows₁.execution.status = rows₂.execution.status := by
  have hend₁ : (fork_state fork_run).map fork_end = some true := by decide +kernel
  have hend₂ : (fork_state fork_run').map fork_end = some true := by decide +kernel
  obtain ⟨s₁, hs₁, hend₁⟩ := Option.map_eq_some_iff.mp hend₁
  obtain ⟨s₂, hs₂, hend₂⟩ := Option.map_eq_some_iff.mp hend₂
  obtain ⟨hrun₁, hc₁, rows₁, hrows₁, hd₁, hin₁, hb⟩ := fork_state_spec hs₁ hend₁
  obtain ⟨hrun₂, hc₂, rows₂, hrows₂, hd₂, hin₂, -⟩ := fork_state_spec hs₂ hend₂
  obtain ⟨hnodes, hexec⟩ := schedule_independent (env_of fork) fork_executors s₁ s₂ hrun₁ hrun₂
    hc₁ hc₂ 0 0 rows₁ rows₂ hrows₁ hrows₂ fork hd₁ hd₂ fork_branchesAreChildren
    (hin₁.trans hin₂.symm)
  exact ⟨s₁, s₂, rows₁, rows₂, hs₁, hs₂, hrows₁, hrows₂, hb, (hnodes "a" (by decide)).2.2, hexec⟩

end EventFlow
