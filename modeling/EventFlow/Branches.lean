/-
A condition runs exactly one of its branches.

The paths of a condition are in its configuration, the graph is in the edge
list, and `validate_workflow` does not compare them. A path that names a root
is running before the condition is evaluated; a condition without successors
skips nothing, because `_queue_downstream_nodes` returns before it looks at the
paths ([`not_one_branch`]).

[`one_branch_of_downstream`] is what holds when the selected path names a
successor of the condition and the other one, if it names a node at all, a node
downstream of it: that node has not been given work when the condition
succeeds, so the same commit skips it, and what is SKIPPED is never run.
-/
import EventFlow.Executors
import EventFlow.Confluence
import EventFlow.Invocations

set_option autoImplicit false

namespace EventFlow

open Transition

/-! ## The condition and its branches -/

/-- The results of condition nodes are those of `ConditionExecutor`. -/
def Sys.ConditionResult (env : Env) (s : Sys) : Action → Prop
  | .complete t result => ∀ m context execution rows d node_def,
      (s.tasks t).phase = .invoked m context execution →
      s.executions context.execution_id = some rows →
      Sys.lookup env rows context.node_id = some (d, node_def) → node_def.type = "condition" →
      ∃ evaluated, result = ConditionExecutor.execute context.config evaluated
  | _ => True

/-- Runs of the atomic alphabet with that executor. -/
def Sys.BranchStep (env : Env) (s : Sys) (a : Action) : Prop :=
  a.atomic = true ∧ s.ConditionResult env a

/-- The path selected by `result` names a successor of the node, and the other
path names no node or one downstream. -/
def WorkflowDefinition.Selects (d : WorkflowDefinition) (node_def : Node) (result : Bool) : Prop :=
  (∃ p, ConditionExecutor.path node_def.config result = .str p ∧
    p ∈ d.child_ids node_def.id) ∧
  ∀ q, ConditionExecutor.path node_def.config (!result) = .str q → q ∈ d.node_ids →
    Relation.TransGen (fun p c => p ∈ d.parent_ids c) node_def.id q

section Targets

variable {d : WorkflowDefinition} {node_def : Node} {result : Bool} {p q n : String}

/-- The unselected path is the only one that is skipped. -/
theorem skip_ids_eq (htype : node_def.type = "condition")
    (hp : ConditionExecutor.path node_def.config result = .str p)
    (hq : ConditionExecutor.path node_def.config (!result) = .str q) (hne : q ≠ p)
    (hempty : q ≠ "") :
    skip_ids node_def (ConditionExecutor.output node_def.config result) = .ok [q] := by
  have hchosen : JsonObject.get (ConditionExecutor.output node_def.config result) "next_node"
      = .str p := by
    rw [← hp]
    rfl
  -- the selected path equals the chosen one, the other one does not
  have hsame : ∀ ids, add_skip_id (.str p) ids (.str p) = .ok ids := by
    intro ids
    simp [add_skip_id]
  have hother : add_skip_id (.str p) [] (.str q) = .ok [q] := by
    simp [add_skip_id, Json.truthy, hne, hempty]
  unfold skip_ids
  rw [if_pos htype, hchosen]
  cases result with
  | true =>
      have hp : JsonObject.get node_def.config "true_path" = .str p := hp
      have hq : JsonObject.get node_def.config "false_path" = .str q := hq
      simp only [hp, hq, bind, Except.bind, hsame, hother]
  | false =>
      have hp : JsonObject.get node_def.config "false_path" = .str p := hp
      have hq : JsonObject.get node_def.config "true_path" = .str q := hq
      simp only [hp, hq, bind, Except.bind, hsame, hother]

/-- **What is downstream of a node that has not succeeded has no work.** By induction
along the path: a node with work has parents that have succeeded, and a node that has
succeeded counts as one that had work. -/
theorem DagInv.waits {nodes : Table String NodeExecution} (h : DagInv d nodes)
    (hst : (nodes.row n).status ≠ .SUCCEEDED)
    (hdown : Relation.TransGen (fun p c => p ∈ d.parent_ids c) n q) :
    (nodes.row q).status.active = false := by
  induction hdown with
  | single hp =>
      by_contra hact
      rw [Bool.not_eq_false] at hact
      exact hst (h.active _ hact n hp)
  | @tail b c _ hp ih =>
      by_contra hact
      rw [Bool.not_eq_false] at hact
      have hb := h.active c hact b hp
      rw [hb] at ih
      cases ih

end Targets

/-! ## The invariant -/

/-- A condition that has succeeded has the output of `ConditionExecutor`, and
the path it did not select is SKIPPED. -/
def BranchInv (d : WorkflowDefinition) (rows : ExecutionRows) : Prop :=
  ∀ n node_def, d.node_def_by_id n = some node_def → node_def.type = "condition" →
    (rows.nodes.row n).status = .SUCCEEDED →
    ∃ result, (rows.nodes.row n).output_payload
        = some (ConditionExecutor.output node_def.config result) ∧
      (JsonObject.get node_def.config "true_path" ≠ JsonObject.get node_def.config "false_path" →
        d.Selects node_def result →
        ∀ q, ConditionExecutor.path node_def.config (!result) = .str q → q ∈ d.node_ids →
          (rows.nodes.row q).status = .SKIPPED)

section Inv

variable {env : Env} {s s' : Sys} {a : Action} {e : ℕ} {d : WorkflowDefinition}
  {rows rows' : ExecutionRows} {n : String}

/-- A node succeeds by a completion of its own. Claims, retries and the rows that a
completion writes for other nodes all set a status other than SUCCEEDED, so the only case
left is the completion of the node itself with a result that is a success. -/
theorem RowsStep.succeeds (h : RowsStep s a e d rows rows')
    (hst : (rows.nodes.row n).status ≠ .SUCCEEDED)
    (hst' : (rows'.nodes.row n).status = .SUCCEEDED) :
    ∃ t m result context execution node_def targets pubs, a = .complete t result ∧
      (s.tasks t).phase = .invoked m context execution ∧ context.execution_id = e ∧
      context.node_id = n ∧ d.node_def_by_id n = some node_def ∧ result.success = true ∧
      (rows.nodes.row n).status = .RUNNING ∧
      branch_targets d node_def n result.output = .ok targets ∧
      DownstreamEffect d n targets s.clock
        (rows.nodes.set n ((rows.nodes.row n).succeed result.output s.clock)) rows'.nodes pubs := by
  -- a row that is set to another status is not the one
  have set : ∀ {m : String} {node : NodeExecution}, node.status ≠ .SUCCEEDED →
      ((rows.nodes.set m node).row n).status ≠ .SUCCEEDED :=
    fun hnode => Table.row_set_of (fun row : NodeExecution => row.status ≠ .SUCCEEDED) hnode hst
  cases h with
  | quiet hexec hkeys hrow hdead =>
      obtain ⟨id, hrow⟩ := hrow n
      rw [hrow] at hst'
      exact absurd hst' hst
  | run m hkey hm => exact absurd hst' (set (by simp))
  | retry m hkey hm ha => exact absurd hst' (set (by simp))
  | @complete logs t msg result context execution node_def session pubs ha hphase he hdef
      hframe hends hdone =>
      cases hdone with
      | succeed targets _ hkey hrun hres hT heff hdead hexec =>
          have hn : context.node_id = n := by
            by_contra hne
            rw [heff.succeeded_iff, Table.row_set_of_ne _ _ (Ne.symm hne)] at hst'
            exact hst hst'
          subst hn
          exact ⟨t, msg, result, context, execution, node_def, targets, pubs, ha, hphase, he, rfl,
            hdef, hres, hrun, hT, heff⟩
      | requeue hkey hrun hres hleft hnodes hdead hexec =>
          rw [hnodes] at hst'
          exact absurd hst' (set (by simp [NodeExecution.retry]))
      | bury hkey hrun hres hleft hnodes hdead hexec =>
          rw [hnodes] at hst'
          exact absurd hst' (set (by simp [NodeExecution.dead_letter]))

/-- The commit that makes a condition SUCCEEDED skips the other branch.
`_queue_downstream_nodes` puts the unselected path into the set of ids to skip, but it
only skips what is PENDING. Here it is: the node is downstream of the condition, so it had
no work before ([`DagInv.waits`]). -/
theorem DownstreamEffect.other_skipped {node_def : Node} {result : Bool} {q : String} {now : ℕ}
    {node : NodeExecution} {nodes after : Table String NodeExecution} {targets pubs : List String}
    (h : DownstreamEffect d n targets now (nodes.set n node) after pubs) (hdag : DagInv d nodes)
    (hkeys : nodes.keys = d.node_ids) (hrun : (nodes.row n).status = .RUNNING)
    (hid : node_def.id = n) (htype : node_def.type = "condition")
    (hT : branch_targets d node_def n (ConditionExecutor.output node_def.config result)
      = .ok targets)
    (hne : JsonObject.get node_def.config "true_path"
      ≠ JsonObject.get node_def.config "false_path")
    (hsel : d.Selects node_def result)
    (hq : ConditionExecutor.path node_def.config (!result) = .str q) (hmem : q ∈ d.node_ids) :
    (after.row q).status = .SKIPPED := by
  obtain ⟨⟨p, hp, hchild⟩, hdown⟩ := hsel
  rw [hid] at hchild
  have hwaits := hdag.waits (by simp [hrun]) (hid ▸ hdown q hq hmem)
  have hqn : q ≠ n := by
    rintro rfl
    rw [hrun] at hwaits
    cases hwaits
  have hback : (nodes.set n node).row q = nodes.row q := Table.row_set_of_ne _ _ hqn
  -- PENDING or SKIPPED already
  obtain ⟨hfailed, hretrying⟩ := hdag.settled q
  cases hst : (nodes.row q).status with
  | PENDING =>
      have hpq : q ≠ p := by
        rintro rfl
        cases result with
        | true => exact hne (hp.trans hq.symm)
        | false => exact hne (hq.trans hp.symm)
      have hempty : q ≠ "" := by
        obtain ⟨node', -, rfl⟩ := WorkflowDefinition.mem_node_ids.mp hmem
        exact node'.id_length
      have htargets : targets = [q] := by
        have hids := skip_ids_eq htype hp hq hpq hempty
        rw [branch_targets, if_neg (List.ne_nil_of_mem hchild), hids, Except.ok.injEq] at hT
        exact hT.symm
      have hskip : SkipSet d (nodes.set n node) targets q := by
        refine .base ?_ ⟨?_, ?_⟩
        · rw [htargets]
          exact List.mem_singleton.mpr rfl
        · rw [Table.keys_set, hkeys]
          exact hmem
        · rw [hback]
          exact hst
      rw [h.skipped q hskip, NodeExecution.enter_status]
  | SKIPPED =>
      rw [h.row_of_not_pending, hback]
      · exact hst
      · rw [hback, hst]
        simp
  | FAILED => exact absurd hst hfailed
  | RETRYING => exact absurd hst hretrying
  | QUEUED => rw [hst] at hwaits; cases hwaits
  | RUNNING => rw [hst] at hwaits; cases hwaits
  | SUCCEEDED => rw [hst] at hwaits; cases hwaits
  | DEAD_LETTERED => rw [hst] at hwaits; cases hwaits

/-- One step. If the condition had succeeded before, both its own row and that of the
branch it skipped have settled, and no step writes a settled row. If it succeeds now, it
does so by its completion ([`RowsStep.succeeds`]), and the output is what
`ConditionExecutor` gives for the path it selected. -/
theorem RowsStep.branchInv (h : RowsStep s a e d rows rows') (hd : rows.Of env d)
    (hdag : DagInv d rows.nodes) (hinv : BranchInv d rows) (hcontext : ContextInv env s)
    (hrows : s.executions e = some rows) (hresult : s.ConditionResult env a) :
    BranchInv d rows' := by
  intro n node_def hdef htype hst'
  by_cases hst : (rows.nodes.row n).status = .SUCCEEDED
  · -- the condition and the branch it has skipped stay as they are
    obtain ⟨result, hout, hskip⟩ := hinv n node_def hdef htype hst
    obtain ⟨id, hrow⟩ := h.settled_row (.inl hst)
    refine ⟨result, by rw [hrow]; exact hout, fun hne hsel q hq hmem => ?_⟩
    have hq := hskip hne hsel q hq hmem
    obtain ⟨id', hrow'⟩ := h.settled_row (.inr hq)
    rw [hrow']
    exact hq
  · obtain ⟨t, m, result, context, execution, node_def', targets, pubs, ha, hphase, rfl, rfl,
      hdef', hsuccess, hrun, hT, heff⟩ := h.succeeds hst hst'
    obtain rfl := Option.some.inj (hdef.symm.trans hdef')
    have hlookup : Sys.lookup env rows context.node_id = some (d, node_def) := by
      obtain ⟨⟨version, hversion, rfl⟩, -, -⟩ := hd
      simp only [Sys.lookup, hversion, Option.bind_some, hdef, Option.map_some]
    have hconfig := (hcontext t m context execution rows d node_def hphase hrows hd hdef).2.1
    rw [ha] at hresult
    obtain ⟨evaluated, hres⟩ :=
      hresult m context execution rows d node_def hphase hrows hlookup htype
    -- a condition that succeeds has been evaluated
    cases evaluated with
    | error exc =>
        rw [hres] at hsuccess
        cases hsuccess
    | ok b =>
        have hout : result.output = ConditionExecutor.output node_def.config b := by
          rw [hres, ← hconfig]
          rfl
        have hrow : rows'.nodes.row context.node_id
            = (rows.nodes.row context.node_id).succeed result.output s.clock := by
          rw [heff.row_of_not_pending, Table.row_set_self]
          rw [Table.row_set_self, NodeExecution.succeed, NodeExecution.enter_status]
          simp
        refine ⟨b, by rw [hrow, ← hout]; rfl, fun hne hsel q hq hmem => ?_⟩
        rw [hout] at hT
        exact heff.other_skipped hdag hd.2.2 hrun
          (WorkflowDefinition.node_def_by_id_eq_some hdef).2 htype hT hne hsel hq hmem

end Inv

/-! ## Runs -/

/-- What a recorded run of conditions keeps. -/
structure BranchRun (env : Env) (s : Sys) (log : List Note) : Prop where
  atomic : AtomicInv env s
  context : ContextInv env s
  branch : ∀ e rows d, s.executions e = some rows → rows.Of env d → BranchInv d rows
  /-- Only nodes that have work are run. -/
  invoked : ∀ e n rows, .invoked e n ∈ log → s.executions e = some rows →
    (rows.nodes.row n).status.active = true
  fresh : ∀ e n, .invoked e n ∈ log → e < s.next_execution_id

section Runs

variable {env : Env} {s s₀ s' : Sys} {a : Action} {log log₀ : List Note}

/-- Nothing has succeeded in a new execution. -/
theorem Started.branchInv {d : WorkflowDefinition} {rows : ExecutionRows}
    (h : Started d rows) : BranchInv d rows := by
  intro n node_def _ _ hst
  rw [h.node_status] at hst
  split at hst <;> cases hst

/-- A task that is about to call an executor holds a node that has work. -/
theorem BranchRun.active_of_note {e : ℕ} {n : String} {rows' : ExecutionRows}
    (h : BranchRun env s log) (heff : Effect env s a s') (hmem : .invoked e n ∈ s.notes a s')
    (hrows' : s'.executions e = some rows') : (rows'.nodes.row n).status.active = true := by
  obtain ⟨t, m, job, k, rows, -, -, hphase, rfl, rfl, hrows, hsame, -⟩ :=
    heff.mem_notes_invoked hmem
  rw [hsame, hrows, Option.some.injEq] at hrows'
  subst hrows'
  exact (h.atomic.claimed t m job k rows hphase hrows).2

theorem BranchRun.effect (h : BranchRun env s log) (heff : Effect env s a s')
    (ha : s.BranchStep env a) : BranchRun env s' (log ++ s.notes a s') := by
  have ht := h.atomic.typed
  refine ⟨h.atomic.effect heff ha.1, h.context.effect h.atomic heff ha.1, ?_, ?_, ?_⟩
  · intro e rows' d hrows' hd'
    rcases heff.rowsStep ht ha.1 hrows' with
      ⟨t, vid, input, owner, session, pubs, -, -, hok, rfl⟩ | ⟨rows, d₀, hrows, hd, hstep⟩
    · obtain ⟨d₀, hd, hstarted⟩ := started_of_start hok
      obtain rfl := hd.unique hd'
      exact hstarted.branchInv
    · obtain rfl := (hstep.of hd).unique hd'
      exact hstep.branchInv hd (h.atomic.dag e rows _ hrows hd) (h.branch e rows _ hrows hd)
        h.context hrows ha.2
  · intro e n rows' hmem hrows'
    rcases List.mem_append.mp hmem with hmem | hmem
    · rcases heff.rowsStep ht ha.1 hrows' with
        ⟨_, _, _, _, _, _, -, he, -, -⟩ | ⟨rows, d, hrows, -, hstep⟩
      · have := h.fresh e n hmem
        omega
      · exact hstep.stays_active (h.invoked e n rows hmem hrows)
    · exact h.active_of_note heff hmem hrows'
  · intro e n hmem
    have hle := heff.next_le
    rcases List.mem_append.mp hmem with hmem | hmem
    · exact (h.fresh e n hmem).trans_le hle
    · obtain ⟨_, _, _, _, rows, -, -, -, -, -, hrows, -⟩ := heff.mem_notes_invoked hmem
      exact (ht.lt hrows).trans_le hle

/-- The clock is no part of it. -/
theorem BranchRun.clock (h : BranchRun env s log) (clock : ℕ) :
    BranchRun env { s with clock := clock } log := by
  obtain ⟨⟨⟨h1, h2, h3, h4⟩, hdag, hexec, hcached, hclaimed⟩, hcontext, hbranch, hinv, hfresh⟩ := h
  exact ⟨⟨⟨h1, h2, h3, h4⟩, hdag, hexec, hcached, hclaimed⟩, hcontext, hbranch, hinv, hfresh⟩

theorem branchRun_of_run (hrun : Recorded env (Sys.BranchStep env) s log) :
    BranchRun env s log := by
  refine Recorded.invariant (BranchRun env) hrun typed_init
    ⟨atomicInv_init, ?_, ?_, ?_, ?_⟩ (fun _ _ clock h => h.clock clock)
    fun _ _ _ _ _ h ha heff => h.effect heff ha
  · intro t m context execution rows d node_def hphase
    cases hphase
  · intro e rows d hrows
    cases hrows
  · intro e n rows hmem
    cases hmem
  · intro e n hmem
    cases hmem

/-- **A node that is SKIPPED is never run**, before or after. Before, because a node that
has been invoked is or was RUNNING and does not become SKIPPED then; after, because a
SKIPPED row has settled and a claim leaves it alone. The second half is an invariant of
its own, which is carried on from the given state: the row stays SKIPPED and the log names
no call. -/
theorem never_invoked_of_skipped {e : ℕ} {n : String} {rows : ExecutionRows}
    (h₀ : Recorded env (Sys.BranchStep env) s₀ log₀) (hrows : s₀.executions e = some rows)
    (hst : (rows.nodes.row n).status = .SKIPPED)
    (hrun : Logged (Sys.step env) Sys.notes (Sys.BranchStep env) (s₀, log₀) (s, log)) :
    .invoked e n ∉ log := by
  have hinv₀ := branchRun_of_run h₀
  refine (Recorded.invariant (fun u l => BranchRun env u l ∧ e < u.next_execution_id ∧
    .invoked e n ∉ l ∧ ∀ r, u.executions e = some r → (r.nodes.row n).status = .SKIPPED)
    hrun hinv₀.atomic.typed ⟨hinv₀, hinv₀.atomic.typed.lt hrows, ?_, ?_⟩
    (fun u l clock h => ⟨h.1.clock clock, h.2⟩) ?_).2.2.1
  · intro hmem
    -- a node that has been invoked before is active, and it is not
    have := hinv₀.invoked e n rows hmem hrows
    rw [hst] at this
    cases this
  · intro r hr
    rw [hrows, Option.some.injEq] at hr
    exact hr ▸ hst
  · rintro u b v l ht ⟨hinv, hlt, hnot, hskip⟩ hb heff
    refine ⟨hinv.effect heff hb, hlt.trans_le heff.next_le, ?_, ?_⟩
    · intro hmem
      rcases List.mem_append.mp hmem with hmem | hmem
      · exact hnot hmem
      · obtain ⟨_, _, _, _, r, -, -, -, -, -, hr, hsame, -⟩ := heff.mem_notes_invoked hmem
        have hact := hinv.active_of_note heff hmem (by rw [hsame]; exact hr)
        rw [hskip r hr] at hact
        cases hact
    · intro r' hr'
      rcases heff.rowsStep ht hb.1 hr' with
        ⟨_, _, _, _, _, _, -, he, -, -⟩ | ⟨r, d, hr, -, hstep⟩
      · omega
      · -- a skipped row stays skipped, so the next step cannot invoke it either
        obtain ⟨id, hrow⟩ := hstep.settled_row (.inr (hskip r hr))
        rw [hrow]
        exact hskip r hr

end Runs

/-- The property of a condition node that is SUCCEEDED in `rows`: it has
selected one of its two paths, that path names a direct successor, and the node
the other path names, if there is one, is SKIPPED and in no later ledger. -/
def OneBranch (env : Env) (guard : Sys → Action → Prop) (s₀ : Sys) (log₀ : List Note) (e : ℕ)
    (rows : ExecutionRows) (d : WorkflowDefinition) (node_def : Node) : Prop :=
  ∃ result, (rows.nodes.row node_def.id).output_payload
      = some (ConditionExecutor.output node_def.config result) ∧
    (∃ p, ConditionExecutor.path node_def.config result = .str p ∧
      p ∈ d.child_ids node_def.id) ∧
    ∀ q, ConditionExecutor.path node_def.config (!result) = .str q → q ∈ d.node_ids →
      (rows.nodes.row q).status = .SKIPPED ∧
      ∀ s log, Logged (Sys.step env) Sys.notes guard (s₀, log₀) (s, log) → .invoked e q ∉ log

/-- **A condition runs exactly one of its branches**, when the path it selected names a
successor of it and the other path no node or one downstream of it. [`BranchInv`] gives
the selected path and, for the other one, that the commit which made the condition
SUCCEEDED has skipped it; from there on it is never run ([`never_invoked_of_skipped`]),
whatever the rest of the run does. -/
theorem one_branch_of_downstream (env : Env) (s : Sys) (log : List Note) (e : ℕ)
    (rows : ExecutionRows) (d : WorkflowDefinition) (node_def : Node)
    (hrun : Recorded env (Sys.BranchStep env) s log) (hrows : s.executions e = some rows)
    (hd : rows.Of env d) (hnode : node_def ∈ d.nodes) (htype : node_def.type = "condition")
    (hpaths : JsonObject.get node_def.config "true_path"
      ≠ JsonObject.get node_def.config "false_path")
    (hst : (rows.nodes.row node_def.id).status = .SUCCEEDED)
    (hsel : ∀ result, (rows.nodes.row node_def.id).output_payload
      = some (ConditionExecutor.output node_def.config result) → d.Selects node_def result) :
    OneBranch env (Sys.BranchStep env) s log e rows d node_def := by
  have hdef := WorkflowDefinition.node_def_by_id_of_mem hd.wellFormed.nodup hnode
  obtain ⟨result, hout, hskip⟩ :=
    (branchRun_of_run hrun).branch e rows d hrows hd node_def.id node_def hdef htype hst
  have hsel := hsel result hout
  refine ⟨result, hout, hsel.1, fun q hq hmem => ?_⟩
  have hq := hskip hpaths hsel q hq hmem
  exact ⟨hq, fun s' log' hrun' => never_invoked_of_skipped hrun hrows hq hrun'⟩

/-! ## Paths that are not successors -/

/-- The condition and transform executors of the default registry. -/
def branching_registry : ExecutorRegistry := fun executor_type =>
  if executor_type = "condition" then some ⟨ConditionExecutor.validate_config⟩
  else if executor_type = "transform" then some ⟨TransformExecutor.validate_config⟩
  else none

/-- `definition` stored as version 0, with these executors. -/
def branching_env (definition : WorkflowDefinition) : Env :=
  { env_of definition with registry := branching_registry }

/-- A condition on the workflow input: `a` if it holds, else `b`. -/
def choose : Node where
  id := "choose"
  type := "condition"
  type_length := condition_ne_empty
  config := [("expression", .str "input.go == true"), ("true_path", .str "a"),
    ("false_path", .str "b")]

/-- A transform node. -/
def transform (node : Node) : Node :=
  { node with
    type := "transform", type_length := by decide, config := [("mapping_rules", .obj [])] }

/-- `b` is a path of `choose` but not a successor: it is a root. -/
def loose : WorkflowDefinition where
  name := "loose"
  nodes := [choose, transform node_a, transform node_b]
  edges := [{ from_node := "choose", to_node := "a" }]

/-- Both paths of `choose` are successors. -/
def tight : WorkflowDefinition :=
  { loose with edges := loose.edges ++ [{ from_node := "choose", to_node := "b" }] }

/-- The condition holds. -/
def chosen : ExecutorResult := ConditionExecutor.execute choose.config (.ok true)

/-- An atomic step in which only `chosen` is returned to a condition. -/
def Sys.branch_step (s : Sys) (a : Action) : Bool :=
  a.atomic && match a with
    | .complete t result =>
      match (s.tasks t).phase with
      | .invoked _ context _ =>
        decide (result = ConditionExecutor.execute context.config (.ok true))
      | _ => true
    | _ => true

theorem Sys.branchStep_of_check {env : Env} {s : Sys} {a : Action}
    (h : s.branch_step a = true) : s.BranchStep env a := by
  refine ⟨Bool.and_elim_left h, ?_⟩
  cases a with
  | complete t result =>
      intro m context execution rows d node_def hphase _ _ _
      have hres := Bool.and_elim_right h
      simp only [hphase, decide_eq_true_eq] at hres
      exact ⟨_, hres⟩
  | _ => trivial

/-- `b` is running when the condition selects `a`. -/
def loose_run : List Action :=
  [.start 0 0 none 0, .publish 0, .publish 0, .claim 1 1, .flush 1, .flush 1, .invoke 1] ++
    take_entry 2 0 chosen

/-- What is read off a state: whether `choose` has succeeded and selected `a`,
how often `b` has been run, and its status. -/
def branch_end (u : Sys × List Note) : Option (Bool × ℕ × NodeExecutionStatus) :=
  (u.1.executions 0).map fun rows =>
    (decide ((rows.nodes.row "choose").status = .SUCCEEDED ∧
        (rows.nodes.row "choose").output_payload
          = some (ConditionExecutor.output choose.config true)),
      u.2.count (.invoked 0 "b"), (rows.nodes.row "b").status)

/-- Version 0 is the only one. -/
theorem of_branching_env {definition : WorkflowDefinition} {s : Sys} {rows : ExecutionRows}
    (ht : s.Typed (branching_env definition)) (hrows : s.executions 0 = some rows) :
    rows.Of (branching_env definition) definition := by
  obtain ⟨d, hd⟩ := ht.rows 0 rows hrows
  obtain ⟨⟨version, hversion, rfl⟩, hrest⟩ := hd
  have hdef : version.definition = definition := by
    simp only [branching_env, env_of] at hversion
    split at hversion
    · cases hversion
      rfl
    · cases hversion
  subst hdef
  exact ⟨⟨version, hversion, rfl⟩, hrest⟩

theorem branch_end_eq_some {s : Sys} {log : List Note} {k : ℕ} {st : NodeExecutionStatus}
    (h : branch_end (s, log) = some (true, k, st)) :
    ∃ rows, s.executions 0 = some rows ∧ (rows.nodes.row choose.id).status = .SUCCEEDED ∧
      (rows.nodes.row choose.id).output_payload
        = some (ConditionExecutor.output choose.config true) ∧
      log.count (.invoked 0 "b") = k ∧ (rows.nodes.row "b").status = st := by
  obtain ⟨rows, hrows, heq⟩ := Option.map_eq_some_iff.mp h
  simp only [Prod.mk.injEq, decide_eq_true_eq] at heq
  exact ⟨rows, hrows, heq.1.1, heq.1.2, heq.2.1, heq.2.2⟩

/-- The output of the condition tells which path it has selected. -/
theorem choose_output_true {result : Bool} (h : ConditionExecutor.output choose.config true
    = ConditionExecutor.output choose.config result) : result = true := by
  cases result with
  | true => rfl
  | false => exact absurd h (by decide)

/-- The branch that was not selected has been run. -/
theorem not_one_branch : ¬ ∀ (env : Env) (s : Sys) (log : List Note) (e : ℕ)
    (rows : ExecutionRows) (d : WorkflowDefinition) (node_def : Node),
    Recorded env (Sys.BranchStep env) s log → s.executions e = some rows → rows.Of env d →
    node_def ∈ d.nodes → node_def.type = "condition" →
    JsonObject.get node_def.config "true_path" ≠ JsonObject.get node_def.config "false_path" →
    (rows.nodes.row node_def.id).status = .SUCCEEDED →
    OneBranch env (Sys.BranchStep env) s log e rows d node_def := by
  intro h
  have hend : (recorded_run (branching_env loose) Sys.branch_step loose_run).bind branch_end
      = some (true, 1, .RUNNING) := by decide +kernel
  obtain ⟨⟨s, log⟩, hs, hend⟩ := Option.bind_eq_some_iff.mp hend
  obtain ⟨rows, hrows, hst, hout, hcount, -⟩ := branch_end_eq_some hend
  have hrun : Recorded (branching_env loose) (Sys.BranchStep (branching_env loose)) s log :=
    (reaches_of_run hs).mono fun _ _ => Sys.branchStep_of_check
  have hd := of_branching_env (Recorded.typed hrun) hrows
  obtain ⟨result, hout', -, hother⟩ := h (branching_env loose) s log 0 rows loose choose hrun hrows
    hd (by simp [loose]) rfl (by decide) hst
  rw [hout, Option.some.injEq] at hout'
  obtain rfl := choose_output_true hout'
  have hnever := (hother "b" rfl (by decide)).2 s log .refl
  exact hnever (List.count_pos_iff.mp (by omega))

/-- Both paths are successors, and `b` is skipped. -/
theorem one_branch_of_downstream_tight :
    ∃ (s : Sys) (log : List Note) (rows : ExecutionRows),
      s.executions 0 = some rows ∧ (rows.nodes.row "b").status = .SKIPPED ∧
      OneBranch (branching_env tight) (Sys.BranchStep (branching_env tight)) s log 0 rows tight
        choose := by
  have hend : (recorded_run (branching_env tight) Sys.branch_step
      ([.start 0 0 none 0, .publish 0] ++ take_entry 1 0 chosen)).bind branch_end
      = some (true, 0, .SKIPPED) := by decide +kernel
  obtain ⟨⟨s, log⟩, hs, hend⟩ := Option.bind_eq_some_iff.mp hend
  obtain ⟨rows, hrows, hst, hout, -, hskip⟩ := branch_end_eq_some hend
  have hrun : Recorded (branching_env tight) (Sys.BranchStep (branching_env tight)) s log :=
    (reaches_of_run hs).mono fun _ _ => Sys.branchStep_of_check
  have hd := of_branching_env (Recorded.typed hrun) hrows
  refine ⟨s, log, rows, hrows, hskip, one_branch_of_downstream (branching_env tight) s log 0 rows
    tight choose hrun hrows hd (by simp [tight, loose]) rfl (by decide) hst fun result hres => ?_⟩
  rw [hout, Option.some.injEq] at hres
  obtain rfl := choose_output_true hres
  refine ⟨⟨"a", rfl, by decide⟩, fun q hq _ => ?_⟩
  cases hq
  exact .single (by decide)

end EventFlow
