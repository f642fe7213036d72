/-
Safety of an execution over whole runs of the atomic alphabet: which nodes may
have work and what their executors are given, why nothing waits for ever
unnoticed, how the status of an execution agrees with its nodes at rest, and
that a SUCCEEDED execution is final.

Each result is an instance of `AtomicInv` from `Invariant.lean`, or of
[`AtomicRun.rows_invariant`], which carries a property of the rows of one
execution from the state where it holds to every later one.
-/
import EventFlow.Invariant

set_option autoImplicit false

namespace EventFlow

open Transition

/-! ## The rows of one execution along a run -/

section Along

variable {env : Env} {s s' : Sys} {a : Action} {e : ℕ}

/-- Execution ids are not used twice. -/
theorem Effect.next_le (h : Effect env s a s') :
    s.next_execution_id ≤ s'.next_execution_id := by
  cases h with
  | start => exact Nat.le_succ _
  | _ => exact le_rfl

/-- **A property of the rows of an execution along a run.** It has to be kept by every
`RowsStep` from a state that satisfies the invariant. The rows of one execution are never
replaced by those of another, since ids are not used twice; so what one [`RowsStep`]
keeps, a run keeps. -/
theorem AtomicRun.rows_invariant (P : ExecutionRows → Prop) {rows rows' : ExecutionRows}
    (hrun : AtomicRun env s s') (hinv : AtomicInv env s) (hrows : s.executions e = some rows)
    (hP : P rows) (hrows' : s'.executions e = some rows')
    (hstep : ∀ u b r r' d, AtomicInv env u → u.executions e = some r → r.Of env d → P r →
      RowsStep u b e d r r' → P r') : P rows' := by
  have hall : AtomicInv env s' ∧ e < s'.next_execution_id ∧
      ∀ r, s'.executions e = some r → P r := by
    refine hrun.invariant (fun u => AtomicInv env u ∧ e < u.next_execution_id ∧
      ∀ r, u.executions e = some r → P r) ?_ ?_
    · refine ⟨hinv, hinv.typed.lt hrows, fun r hr => ?_⟩
      rw [hrows, Option.some.injEq] at hr
      exact hr ▸ hP
    · rintro u b v ⟨hu, hlt, hPu⟩ hb hs
      refine ⟨hu.step hs hb, ?_⟩
      obtain ⟨w, hw, rfl⟩ := Option.map_eq_some_iff.mp hs
      have heff := effect_of_act hu.typed hw
      refine ⟨hlt.trans_le heff.next_le, fun r' hr' => ?_⟩
      rcases heff.rowsStep hu.typed hb hr' with
        ⟨_, _, _, _, _, _, -, he, -, -⟩ | ⟨r, d, hr, hd, hrs⟩
      · omega
      · exact hstep u b r r' d hu hr hd (hPu r hr) hrs
  exact hall.2.2 rows' hrows'

/-- The row of a node that is SUCCEEDED or SKIPPED stays, message id aside. -/
theorem RowsStep.settled_row {d : WorkflowDefinition} {rows rows' : ExecutionRows} {n : String}
    (h : RowsStep s a e d rows rows')
    (hst : (rows.nodes.row n).status = .SUCCEEDED ∨ (rows.nodes.row n).status = .SKIPPED) :
    ∃ id, rows'.nodes.row n = { rows.nodes.row n with redis_message_id := id } := by
  -- a row that is written belongs to a node in another status
  have other : ∀ {m : String} {node : NodeExecution}, (rows.nodes.row m).status ≠ .SUCCEEDED →
      (rows.nodes.row m).status ≠ .SKIPPED → (rows.nodes.set m node).row n = rows.nodes.row n := by
    intro m node h1 h2
    refine Table.row_set_of_ne _ _ ?_
    rintro rfl
    exact hst.elim h1 h2
  cases h with
  | quiet hexec hkeys hrow hdead => exact hrow n
  | run m hkey hm => exact ⟨_, other (by rcases hm with hm | hm <;> simp [hm])
      (by rcases hm with hm | hm <;> simp [hm])⟩
  | retry m hkey hm => exact ⟨_, other (by simp [hm]) (by simp [hm])⟩
  | complete ha hphase he hdef hframe hends hdone => exact ⟨_, hdone.settled_row hst⟩

/-- A node that has succeeded stays as it is. -/
theorem AtomicRun.succeeded_stays {rows rows' : ExecutionRows} {n : String}
    (hrun : AtomicRun env s s') (hinv : AtomicInv env s) (hrows : s.executions e = some rows)
    (hrows' : s'.executions e = some rows') (hst : (rows.nodes.row n).status = .SUCCEEDED) :
    (rows'.nodes.row n).status = .SUCCEEDED ∧
      (rows'.nodes.row n).output_payload = (rows.nodes.row n).output_payload := by
  refine AtomicRun.rows_invariant (P := fun r => (r.nodes.row n).status = .SUCCEEDED ∧
    (r.nodes.row n).output_payload = (rows.nodes.row n).output_payload) hrun hinv hrows
    ⟨hst, rfl⟩ hrows' ?_
  rintro u b r r' d - - - ⟨h1, h2⟩ hstep
  obtain ⟨id, hrow⟩ := hstep.settled_row (.inl h1)
  rw [hrow]
  exact ⟨h1, h2⟩

end Along

/-! ## Small workflows to run -/

/-- Any executor type is known and any configuration passes. -/
def any_registry : ExecutorRegistry := fun _ => some ⟨fun _ => .ok ()⟩

/-- `definition` stored as version 0 of a workflow of API key 0. -/
def env_of (definition : WorkflowDefinition) : Env where
  registry := any_registry
  versions := fun v => if v = 0 then some ⟨0, 0, definition⟩ else none

/-- The status of a node, if it is stored. -/
def Sys.node_status (s : Sys) (e : ℕ) (n : String) : Option NodeExecutionStatus :=
  (s.executions e).bind fun rows => (rows.nodes.get? n).map NodeExecution.status

/-- The status of an execution, if it is stored. -/
def Sys.execution_status (s : Sys) (e : ℕ) : Option ExecutionStatus :=
  (s.executions e).map fun rows => rows.execution.status

/-- A result without data. -/
def succeeded : ExecutorResult := { success := true }

/-- A failed result. -/
def failed : ExecutorResult := { success := false, error := some "boom" }

/-- One attempt. -/
def once : RetryPolicy :=
  { DEFAULT_RETRY_POLICY with
    max_attempts := 1
    max_attempts_ge := Nat.one_pos
    max_attempts_le := by decide }

/-- A task. -/
def node_a : Node := { id := "a", type := "task" }

/-- Another task. -/
def node_b : Node := { node_a with id := "b", id_length := by decide }

/-- `a` before `b`, one attempt each. -/
def chain : WorkflowDefinition where
  name := "chain"
  nodes := [node_a, node_b]
  edges := [{ from_node := "a", to_node := "b" }]
  default_retry_policy := some once

/-- Start `chain` and run `a` to its end, then claim `b`. -/
def chain_run : List Action :=
  [.start 0 0 none 0, .publish 0, .claim 1 0, .flush 1, .flush 1, .invoke 1,
    .complete 1 succeeded, .publish 1, .claim 2 1]

/-- The state that a list of actions of the atomic alphabet leads to. -/
def atomic_run (definition : WorkflowDefinition) (as : List Action) : Option Sys :=
  run (restrict (Sys.step (env_of definition)) fun _ a => a.atomic) Sys.init as

theorem atomicRun_of_run {definition : WorkflowDefinition} {s : Sys} {as : List Action}
    (h : atomic_run definition as = some s) : AtomicRun (env_of definition) Sys.init s :=
  reaches_of_run h

/-- All tasks from `bound` on are idle, so that what is said about every task can
be checked on the first few. -/
def Sys.IdleFrom (bound : ℕ) (s : Sys) : Prop := ∀ t, bound ≤ t → s.tasks t = {}

/-- An action of one of the first `bound` tasks. -/
def Action.below (bound : ℕ) (a : Action) : Bool :=
  match a.task with
  | some t => decide (t < bound)
  | none => true

theorem Sys.IdleFrom.step {env : Env} {s s' : Sys} {a : Action} {bound : ℕ}
    (h : s.IdleFrom bound) (ht : s.Typed env) (ha : a.below bound = true)
    (hs : s.step env a = some s') : s'.IdleFrom bound := by
  intro t hbt
  obtain ⟨u, hu, rfl⟩ := Option.map_eq_some_iff.mp hs
  have hne : a.task ≠ some t := by
    intro heq
    simp only [Action.below, heq, decide_eq_true_eq] at ha
    omega
  exact ((effect_of_act ht hu).tasks_of_ne hne).trans (h t hbt)

section Checked

variable {env : Env} {bound : ℕ} {check : Sys → Action → Bool} {s : Sys} {as : List Action}

theorem idleFrom_invariant {u v : Sys} {a : Action} (h : u.Typed env ∧ u.IdleFrom bound)
    (hc : (a.below bound && check u a) = true) (hs : u.step env a = some v) :
    v.Typed env ∧ v.IdleFrom bound :=
  ⟨typed_of_step h.1 hs, h.2.step h.1 (Bool.and_elim_left hc) hs⟩

/-- A concrete run of the first few tasks leaves the others idle. -/
theorem idleFrom_of_run
    (hrun : run (restrict (Sys.step env) fun u a => a.below bound && check u a) Sys.init as
      = some s) : s.IdleFrom bound :=
  ((reaches_of_run hrun).invariant (fun u => u.Typed env ∧ u.IdleFrom bound)
    ⟨typed_init, fun _ _ => rfl⟩ fun _ _ _ h hc hs => idleFrom_invariant h hc hs).2

/-- A concrete run of the first few tasks meets a guard that has been checked on
these tasks only. -/
theorem reaches_of_checked_run {guard : Sys → Action → Prop}
    (hguard : ∀ u a, u.IdleFrom bound → check u a = true → guard u a)
    (hrun : run (restrict (Sys.step env) fun u a => a.below bound && check u a) Sys.init as
      = some s) : Reaches (Sys.step env) guard Sys.init s := by
  refine (reaches_of_run hrun).mono_of_invariant (fun u => u.Typed env ∧ u.IdleFrom bound)
    ⟨typed_init, fun _ _ => rfl⟩ (fun _ _ _ h hc hs => idleFrom_invariant h hc hs) ?_
  rintro u a ⟨-, hidle⟩ hc
  exact hguard u a hidle (Bool.and_elim_right hc)

end Checked

/-- Reading a node's status off a stored execution. -/
theorem Sys.node_status_eq_some {s : Sys} {e : ℕ} {n : String} {st : NodeExecutionStatus}
    (h : s.node_status e n = some st) :
    ∃ rows, s.executions e = some rows ∧ n ∈ rows.nodes.keys ∧ (rows.nodes.row n).status = st := by
  obtain ⟨rows, hrows, h⟩ := Option.bind_eq_some_iff.mp h
  obtain ⟨node, hnode, rfl⟩ := Option.map_eq_some_iff.mp h
  obtain ⟨hkey, rfl⟩ := Table.get?_eq_some_iff.mp hnode
  exact ⟨rows, hrows, hkey, rfl⟩

/-- Version 0 is the only one, so it is the definition of every execution. -/
theorem of_env_of {definition d : WorkflowDefinition} {rows : ExecutionRows}
    (h : rows.Of (env_of definition) d) : d = definition := by
  obtain ⟨⟨version, hversion, rfl⟩, -, -⟩ := h
  simp only [env_of] at hversion
  split at hversion
  · cases hversion
    rfl
  · cases hversion

/-! ## Dependency safety -/

/-- The upstream outputs are the graph of the parents' payloads. -/
theorem mem_upstream_outputs {nodes : Table String NodeExecution} {ps : List String}
    (hps : ∀ p ∈ ps, p ∈ nodes.keys) {p : String} {v : Json} :
    (p, v) ∈ upstream_outputs nodes ps ↔
      p ∈ ps ∧ v = Json.of_payload (nodes.row p).output_payload := by
  unfold upstream_outputs
  simp only [List.mem_map, List.mem_filter, List.mem_eraseDups, decide_eq_true_eq,
    Prod.mk.injEq]
  constructor
  · rintro ⟨q, ⟨hq, -⟩, rfl, rfl⟩
    exact ⟨hq, rfl⟩
  · rintro ⟨hp, rfl⟩
    exact ⟨p, ⟨hp, hps p hp⟩, rfl, rfl⟩

/-- **Dependency safety.** In every reachable state a node that is QUEUED, RUNNING,
SUCCEEDED or DEAD_LETTERED has only SUCCEEDED parents; an executor is invoked with exactly
its node's parents, each mapped to the payload of its SUCCEEDED row; and from the state
where a row is SUCCEEDED on, its status and its payload are the same in every later state.
The first part is the invariant of the rows, [`DagInv`]: a node leaves PENDING for the
queue only when all its parents have succeeded, and a SUCCEEDED row stays. The second
follows, because the context is read after the claim, when the node was RUNNING; the third
is the run lemma above for one row. -/
theorem dependency_safety (env : Env) (s₀ s : Sys) (h₀ : AtomicRun env Sys.init s₀)
    (hrun : AtomicRun env s₀ s) :
    (∀ e rows d, s.executions e = some rows → rows.Of env d → ∀ n ∈ d.node_ids,
      (rows.nodes.row n).status ∈
        [NodeExecutionStatus.QUEUED, .RUNNING, .SUCCEEDED, .DEAD_LETTERED] →
      ∀ p ∈ d.parent_ids n, (rows.nodes.row p).status = .SUCCEEDED) ∧
    (∀ t s' m context execution, s.step env (.invoke t) = some s' →
      (s'.tasks t).phase = .invoked m context execution →
      ∃ rows d, s.executions context.execution_id = some rows ∧ rows.Of env d ∧
        (∀ p v, (p, v) ∈ context.upstream_outputs ↔ p ∈ d.parent_ids context.node_id ∧
          v = Json.of_payload (rows.nodes.row p).output_payload) ∧
        ∀ p ∈ d.parent_ids context.node_id, (rows.nodes.row p).status = .SUCCEEDED) ∧
    (∀ e rows₀ rows n, s₀.executions e = some rows₀ → s.executions e = some rows →
      (rows₀.nodes.row n).status = .SUCCEEDED →
      (rows.nodes.row n).status = .SUCCEEDED ∧
        (rows.nodes.row n).output_payload = (rows₀.nodes.row n).output_payload) := by
  have hinv₀ := atomicInv_of_run h₀
  have hinv := hinv₀.run hrun
  refine ⟨fun e rows d hrows hd n hn hst p hp => ?_, ?_, ?_⟩
  · refine (hinv.dag e rows d hrows hd).active n ?_ p hp
    simp only [List.mem_cons, List.not_mem_nil, or_false] at hst
    rcases hst with hst | hst | hst | hst <;> rw [hst] <;> rfl
  · intro t s' m context execution hs hphase
    obtain ⟨u, hu, rfl⟩ := Option.map_eq_some_iff.mp hs
    obtain ⟨job, attempt, rows, d', node_def, htask, hrows, hlookup, rfl, -⟩ :=
      invoked_of_invoke hu hphase
    obtain ⟨d, hd⟩ := hinv.typed.rows _ _ hrows
    obtain ⟨rfl, -⟩ := hd.lookup hlookup
    obtain ⟨-, hact⟩ := hinv.claimed t m job attempt rows (by rw [htask]) hrows
    refine ⟨rows, _, hrows, hd, fun p v => mem_upstream_outputs fun q hq => ?_,
      fun p hp => (hinv.dag _ rows _ hrows hd).active job.node_id hact p hp⟩
    rw [hd.2.2]
    exact hd.wellFormed.parent_mem hq
  · intro e rows₀ rows n hrows₀ hrows hst
    exact hrun.succeeded_stays hinv₀ hrows₀ hrows hst

/-- Once `b` of `chain` has been claimed, `a` has succeeded. -/
theorem dependency_safety_chain :
    ∃ s, atomic_run chain chain_run = some s ∧ s.node_status 0 "b" = some .RUNNING ∧
      ∀ rows, s.executions 0 = some rows → (rows.nodes.row "a").status = .SUCCEEDED := by
  have hb : (atomic_run chain chain_run).bind (fun s => s.node_status 0 "b") = some .RUNNING := by
    decide +kernel
  obtain ⟨s, hs, hst⟩ := Option.bind_eq_some_iff.mp hb
  have hrun := atomicRun_of_run hs
  obtain ⟨rows₀, hrows₀, -, hst₀⟩ := Sys.node_status_eq_some hst
  refine ⟨s, hs, hst, fun rows hrows => ?_⟩
  rw [hrows₀, Option.some.injEq] at hrows
  subst hrows
  obtain ⟨d, hd⟩ := (typed_of_reaches hrun).rows _ _ hrows₀
  obtain rfl := of_env_of hd
  exact (dependency_safety (env_of chain) Sys.init s .refl hrun).1 0 rows₀ chain hrows₀ hd "b"
    (by decide) (by simp [hst₀]) "a" (by decide)

/-! ## No orphaned work -/

/-- A committed completion leaves the rows of an execution with a node. -/
theorem nodes_of_complete {env : Env} {s s' : Sys} {t m : ℕ} {result : ExecutorResult}
    {context : ExecutionContext} {execution : Execution} {msg : Option ℕ} {owed : List Job}
    {sent : List (String × ℕ)} (ht : s.Typed env)
    (hs : s.step env (.complete t result) = some s')
    (hphase : (s.tasks t).phase = .invoked m context execution)
    (hphase' : (s'.tasks t).phase = .publishing msg context.execution_id owed sent) :
    ∃ rows, s'.executions context.execution_id = some rows ∧ rows.nodes.keys ≠ [] := by
  obtain ⟨u, hu, rfl⟩ := Option.map_eq_some_iff.mp hs
  rcases complete_cases ht hu with rfl | ⟨m₁, context₁, execution₁, rows₁, -, -, -, rfl⟩ |
    ⟨m₁, context₁, execution₁, rows₁, d, node_def, session, pubs, hphase₁, hrows₁, -, hsteps, -,
      hdone, rfl⟩
  · simp [Sys.park] at hphase'
  · simp [Sys.park] at hphase'
  · rw [hphase, Phase.invoked.injEq] at hphase₁
    obtain ⟨-, rfl, -⟩ := hphase₁
    refine ⟨_, Function.update_self .., ?_⟩
    have hkey : context.node_id ∈ rows₁.nodes.keys := by
      cases hdone with
      | succeed targets pubs hkey => exact hkey
      | requeue hkey => exact hkey
      | bury hkey => exact hkey
    change session.nodes.keys ≠ []
    rw [hsteps.sameFrame.keys]
    exact List.ne_nil_of_mem hkey

/-- **No orphaned work.** Every PENDING node has an ancestor that is QUEUED, RUNNING or
DEAD_LETTERED; and once a completion has been committed for an execution, now and in every
later state: if none of its nodes is QUEUED or RUNNING, then it is not RUNNING either. For
the first half, go up from a PENDING node: if all its parents were SUCCEEDED the
completion of the last one would have queued it, if one were SKIPPED it would be skipped
itself; so it has a parent that is either still at work, or dead, or PENDING again, and
the graph has no cycle. For the second, a RUNNING execution that has a node has one that
is QUEUED or RUNNING ([`ExecInv`]), and the completion shows that it has a node. -/
theorem no_orphaned_work (env : Env) (s : Sys) (hrun : AtomicRun env Sys.init s) :
    (∀ e rows d, s.executions e = some rows → rows.Of env d → ∀ n ∈ d.node_ids,
      (rows.nodes.row n).status = .PENDING →
      ∃ a ∈ d.node_ids, Relation.TransGen (fun p c => p ∈ d.parent_ids c) a n ∧
        ((rows.nodes.row a).status = .QUEUED ∨ (rows.nodes.row a).status = .RUNNING ∨
          (rows.nodes.row a).status = .DEAD_LETTERED)) ∧
    (∀ t result s' s'' m context execution owed rows,
      s.step env (.complete t result) = some s' →
      (s.tasks t).phase = .invoked m context execution →
      (s'.tasks t).phase = .publishing (some m) context.execution_id owed [] →
      AtomicRun env s' s'' → s''.executions context.execution_id = some rows →
      (∀ n ∈ rows.nodes.keys, (rows.nodes.row n).status ≠ .QUEUED ∧
        (rows.nodes.row n).status ≠ .RUNNING) →
      rows.execution.status ≠ .RUNNING) := by
  have hinv := atomicInv_of_run hrun
  refine ⟨fun e rows d hrows hd n hn hpend => ?_, ?_⟩
  · exact (hinv.dag e rows d hrows hd).pending_ancestor hd.wellFormed n hn hpend
  · intro t result s' s'' m context execution owed rows hs hphase hphase' hrun' hrows hrest hst
    have hinv' := (hinv.step hs rfl).run hrun'
    obtain ⟨d, hd⟩ := hinv'.typed.rows _ _ hrows
    -- an execution that has completed a job has a node
    have hne : rows.nodes.keys ≠ [] := by
      obtain ⟨rows₀, hrows₀, hkeys₀⟩ := nodes_of_complete hinv.typed hs hphase hphase'
      refine AtomicRun.rows_invariant (P := fun r => r.nodes.keys ≠ []) hrun' (hinv.step hs rfl)
        hrows₀ hkeys₀ hrows fun u b r r' d' _ _ hd' hr hstep => ?_
      rwa [(hstep.of hd').2.2, ← hd'.2.2]
    obtain ⟨n, hn, hbusy⟩ := (hinv'.exec _ rows d hrows hd).busy hst (hd.2.2 ▸ hne)
    rw [← hd.2.2] at hn
    exact hbusy.elim (hrest n hn).1 (hrest n hn).2

/-- Right after the start of `chain`, `b` waits for `a`. -/
theorem no_orphaned_work_chain :
    ∃ s rows, atomic_run chain [.start 0 0 none 0] = some s ∧
      s.executions 0 = some rows ∧ (rows.nodes.row "b").status = .PENDING ∧
      ∃ a ∈ chain.node_ids, Relation.TransGen (fun p c => p ∈ chain.parent_ids c) a "b" ∧
        ((rows.nodes.row a).status = .QUEUED ∨ (rows.nodes.row a).status = .RUNNING ∨
          (rows.nodes.row a).status = .DEAD_LETTERED) := by
  have hb : (atomic_run chain [.start 0 0 none 0]).bind
      (fun s => s.node_status 0 "b") = some .PENDING := by decide +kernel
  obtain ⟨s, hs, hst⟩ := Option.bind_eq_some_iff.mp hb
  have hrun := atomicRun_of_run hs
  obtain ⟨rows, hrows, -, hst⟩ := Sys.node_status_eq_some hst
  obtain ⟨d, hd⟩ := (typed_of_reaches hrun).rows _ _ hrows
  obtain rfl := of_env_of hd
  exact ⟨s, rows, hs, hrows, hst,
    (no_orphaned_work (env_of chain) s hrun).1 0 rows chain hrows hd "b" (by decide) hst⟩

/-! ## The status of an execution at rest -/

/-- A completing task does not hold an execution instance that says RUNNING when
the row does not any more. -/
def Sys.current (s : Sys) : Action → Bool
  | .complete t _ =>
    match (s.tasks t).phase with
    | .invoked _ context execution =>
      match s.executions context.execution_id with
      | some rows => execution.status != .RUNNING || rows.execution.status == .RUNNING
      | none => true
    | _ => true
  | _ => true

theorem Sys.current_complete {s : Sys} {t m : ℕ} {result : ExecutorResult}
    {context : ExecutionContext} {execution : Execution} {rows : ExecutionRows}
    (h : s.current (.complete t result) = true)
    (hphase : (s.tasks t).phase = .invoked m context execution)
    (hrows : s.executions context.execution_id = some rows)
    (hrun : execution.status = .RUNNING) : rows.execution.status = .RUNNING := by
  simpa [Sys.current, hphase, hrows, hrun] using h

/-- With current instances only, a dead-letter row means a failed execution. The row is
added when the execution is failed; what could undo that is a completion that writes its
own instance back, and an instance that says RUNNING when the row says FAILED is not
current. -/
theorem RowsStep.failed_of_current {env : Env} {s : Sys} {a : Action} {e : ℕ}
    {d : WorkflowDefinition} {rows rows' : ExecutionRows} (h : RowsStep s a e d rows rows')
    (hrows : s.executions e = some rows) (hd : rows.Of env d) (hcur : s.current a = true)
    (hinv : rows.dead_letter_jobs ≠ [] → rows.execution.status = .FAILED)
    (hdead : ExecInv d rows') (hjobs : rows'.dead_letter_jobs ≠ []) :
    rows'.execution.status = .FAILED := by
  cases h with
  | quiet hexec hkeys hrow hsame =>
      rw [hexec]
      exact hinv (hsame ▸ hjobs)
  | run n hkey hst => exact hinv hjobs
  | retry n hkey hst =>
      refine hinv fun hnil => hjobs ?_
      simp [hnil, resolve_jobs]
  | @complete logs t m result context execution node_def session pubs ha hphase he hdef hframe
      hends hdone =>
      subst ha
      subst he
      have hcur := Sys.current_complete hcur hphase hrows
      cases hdone with
      -- a current instance is not RUNNING when there is a dead letter, so it is not closed
      | succeed targets _ hkey hrun hres hT heff hnew hexec =>
          simp only [hnew, List.append_nil] at hjobs
          have hf := hinv hjobs
          have hsame : session.execution = execution := by
            refine hexec.trans (finalised_of_not_running _ fun hr => ?_)
            rw [hcur hr] at hf
            cases hf
          simp only [hsame, Execution.flush_untouched]
          exact hf
      | requeue hkey hrun hres hleft hnodes hnew hexec =>
          simp only [hnew, List.append_nil] at hjobs
          simp only [hexec, Execution.flush_untouched]
          exact hinv hjobs
      | bury hkey hrun hres hleft hnodes hnew hexec =>
          refine hdead.dead context.node_id (hd.2.2 ▸ hkey) ?_
          simp only [hnodes, Table.row_set_self]
          exact NodeExecution.enter_status ..

/-- **The status of an execution at rest.** When no node is QUEUED or RUNNING, the
execution is FAILED if some node is DEAD_LETTERED, and SUCCEEDED if it has no dead-letter
row at all. If it has dead-letter rows and no worker completed a node with an outdated
instance, it is FAILED, whatever `retry_node` has made of its nodes since. A RUNNING
execution at rest would have a node at work ([`ExecInv`]), so it is SUCCEEDED or FAILED,
and it is FAILED only if there has been a dead letter. `retry_node` sends the node back to
the queue and leaves the execution FAILED, so the first implication has no converse; in
the third part the dead-letter row stands for what once happened. -/
theorem status_at_rest (env : Env) (s : Sys) (e : ℕ) (rows : ExecutionRows)
    (d : WorkflowDefinition) (hrun : AtomicRun env Sys.init s)
    (hrows : s.executions e = some rows) (hd : rows.Of env d) (hne : d.node_ids ≠ [])
    (hrest : ∀ n ∈ d.node_ids, (rows.nodes.row n).status ≠ .QUEUED ∧
      (rows.nodes.row n).status ≠ .RUNNING) :
    ((∃ n ∈ d.node_ids, (rows.nodes.row n).status = .DEAD_LETTERED) →
      rows.execution.status = .FAILED) ∧
    (rows.dead_letter_jobs = [] → rows.execution.status = .SUCCEEDED) ∧
    (Reaches (Sys.step env) (fun s a => a.atomic = true ∧ s.current a = true) Sys.init s →
      rows.dead_letter_jobs ≠ [] → rows.execution.status = .FAILED) := by
  have hinv := (atomicInv_of_run hrun).exec e rows d hrows hd
  refine ⟨fun ⟨n, hn, hst⟩ => hinv.dead n hn hst, fun hnone => ?_, fun hcur => ?_⟩
  · rcases hinv.status with hr | hs | hf
    · obtain ⟨n, hn, hbusy⟩ := hinv.busy hr hne
      exact absurd hbusy (by simpa using hrest n hn)
    · exact hs
    · exact absurd hnone (hinv.failed hf)
  · refine (hcur.invariant (fun u => AtomicInv env u ∧ ∀ e r, u.executions e = some r →
      r.dead_letter_jobs ≠ [] → r.execution.status = .FAILED) ⟨atomicInv_init, ?_⟩ ?_).2 e rows
        hrows
    · intro e r hr
      simp [Sys.init] at hr
    · rintro u a v ⟨hu, hfail⟩ ⟨ha, hc⟩ hs
      have hv := hu.step hs ha
      refine ⟨hv, fun e r' hr' => ?_⟩
      obtain ⟨w, hw, rfl⟩ := Option.map_eq_some_iff.mp hs
      rcases (effect_of_act hu.typed hw).rowsStep hu.typed ha hr' with
        ⟨_, _, _, _, session, _, -, -, hok, rfl⟩ | ⟨r, d, hr, hd, hstep⟩
      · obtain ⟨d, -, hstarted⟩ := started_of_start hok
        exact fun hjobs => absurd hstarted.dead_letter_jobs hjobs
      · exact hstep.failed_of_current hr hd hc (hfail e r hr) (hv.exec e r' d hr' (hstep.of hd))

/-- One node, one attempt. -/
def solo : WorkflowDefinition where
  name := "solo"
  nodes := [node_a]
  default_retry_policy := some once

/-- The node fails for good, is retried by hand and succeeds. -/
def solo_run : List Action :=
  [.start 0 0 none 0, .publish 0, .finish 0,
    .claim 1 0, .flush 1, .flush 1, .invoke 1, .complete 1 failed, .finish 1,
    .retry 2 0 "a" 0, .publish 2, .finish 2,
    .claim 3 1, .flush 3, .flush 3, .invoke 3, .complete 3 succeeded]

/-- `retry_node` leaves the execution FAILED, also when the retried node
succeeds and nothing else is left. -/
theorem not_succeeded_after_retry : ¬ ∀ (env : Env) (s : Sys) (e : ℕ) (rows : ExecutionRows)
    (d : WorkflowDefinition), AtomicRun env Sys.init s → s.executions e = some rows →
    rows.Of env d → d.node_ids ≠ [] →
    (∀ n ∈ d.node_ids, (rows.nodes.row n).status ≠ .QUEUED ∧
      (rows.nodes.row n).status ≠ .RUNNING) →
    rows.execution.status = if ∃ n ∈ d.node_ids, (rows.nodes.row n).status = .DEAD_LETTERED
      then .FAILED else .SUCCEEDED := by
  intro h
  have ha : (atomic_run solo solo_run).bind
      (fun s => (s.node_status 0 "a").bind fun st => (s.execution_status 0).map fun x => (st, x))
        = some (.SUCCEEDED, .FAILED) := by decide +kernel
  obtain ⟨s, hs, hst⟩ := Option.bind_eq_some_iff.mp ha
  obtain ⟨st, hnode, hst⟩ := Option.bind_eq_some_iff.mp hst
  obtain ⟨x, hexec, heq⟩ := Option.map_eq_some_iff.mp hst
  cases heq
  obtain ⟨rows, hrows, -, hst⟩ := Sys.node_status_eq_some hnode
  have hfailed : rows.execution.status = .FAILED := by
    simpa [Sys.execution_status, hrows] using hexec
  have hrun := atomicRun_of_run hs
  obtain ⟨d, hd⟩ := (typed_of_reaches hrun).rows _ _ hrows
  obtain rfl := of_env_of hd
  have hids : solo.node_ids = ["a"] := rfl
  have := h (env_of solo) s 0 rows solo hrun hrows hd (by simp [hids]) (by simp [hids, hst])
  simp [hids, hst, hfailed] at this

/-- A dead-lettered `a` at rest. -/
theorem status_at_rest_solo :
    ∃ s rows, atomic_run solo (solo_run.take 9) = some s ∧
      s.executions 0 = some rows ∧ (rows.nodes.row "a").status = .DEAD_LETTERED ∧
      rows.execution.status = .FAILED := by
  have ha : (atomic_run solo (solo_run.take 9)).bind
      (fun s => s.node_status 0 "a") = some .DEAD_LETTERED := by decide +kernel
  obtain ⟨s, hs, hst⟩ := Option.bind_eq_some_iff.mp ha
  have hrun := atomicRun_of_run hs
  obtain ⟨rows, hrows, -, hst⟩ := Sys.node_status_eq_some hst
  obtain ⟨d, hd⟩ := (typed_of_reaches hrun).rows _ _ hrows
  obtain rfl := of_env_of hd
  have hids : solo.node_ids = ["a"] := rfl
  refine ⟨s, rows, hs, hrows, hst, ?_⟩
  exact (status_at_rest (env_of solo) s 0 rows solo hrun hrows hd (by simp [hids])
    (by simp [hids, hst])).1 ⟨"a", by simp [hids], hst⟩

/-! ## A SUCCEEDED execution is final -/

section Final

variable {env : Env} {s s' : Sys} {a : Action} {e : ℕ}

/-- Only `delete_execution` removes rows. -/
theorem Effect.stays_stored {rows : ExecutionRows} (h : Effect env s a s')
    (hrows : s.executions e = some rows) (ha : ∀ owner, a ≠ .delete e owner) :
    ∃ rows', s'.executions e = some rows' := by
  have update : ∀ {e₀ : ℕ} {r : ExecutionRows},
      ∃ rows', Function.update s.executions e₀ (some r) e = some rows' := by
    intro e₀ r
    by_cases he : e = e₀
    · subst he
      exact ⟨r, Function.update_self ..⟩
    · exact ⟨rows, by rw [Function.update_of_ne he, hrows]⟩
  cases h with
  | @delete e₀ owner =>
      have he : e ≠ e₀ := by
        rintro rfl
        exact ha owner rfl
      exact ⟨rows, by simp only [Function.update_of_ne he, hrows]⟩
  | start => exact update
  | retry => exact update
  | discard_logged => exact update
  | claim => exact update
  | recover_raised => exact update
  | recover => exact update
  | reclaim => exact update
  | complete => exact update
  | finish => exact update
  | _ => exact ⟨rows, hrows⟩

/-- A job that is owed after a step was owed before, or belongs to an execution
that is new or has a RUNNING or DEAD_LETTERED node. -/
theorem Effect.owes {t : ℕ} {job : Job} (h : Effect env s a s') (ht : s.Typed env)
    (hjob : job ∈ (s'.tasks t).phase.owes) :
    job ∈ (s.tasks t).phase.owes ∨ s.executions job.execution_id = none ∨
      ∃ rows n, s.executions job.execution_id = some rows ∧ n ∈ rows.nodes.keys ∧
        ((rows.nodes.row n).status = .RUNNING ∨
          (rows.nodes.row n).status = .DEAD_LETTERED) := by
  have hcomes := h.comes t
  cases hphase : (s'.tasks t).phase with
  | publishing msg e owed sent =>
      rw [hphase] at hjob hcomes
      cases hcomes with
      | stayed hold => exact .inl (by rw [hold]; exact hjob)
      | published hold => exact .inl (by rw [hold]; exact List.mem_cons_of_mem _ hjob)
      | started hok hrows' =>
          refine .inr (.inl ?_)
          rw [execution_id_of_mem_jobs_of hjob, (inserted_of hok).2]
          exact ht.fresh _ le_rfl
      | retried hrows hkey hst hid hrows' hnodes hrow =>
          refine .inr (.inr ⟨_, _, ?_, hkey, .inr hst⟩)
          rw [execution_id_of_mem_jobs_of hjob, hid]
          exact hrows
      | completed hold hrows hid hrows' hnodes hdone =>
          obtain ⟨hkey, hrun⟩ := hdone.running
          refine .inr (.inr ⟨_, _, ?_, hkey, .inl hrun⟩)
          rw [execution_id_of_mem_jobs_of hjob, hid]
          exact hrows
  | _ =>
      rw [hphase] at hjob
      cases hjob

/-- Nothing moves in a SUCCEEDED execution. -/
theorem RowsStep.quiet_of_succeeded {d : WorkflowDefinition} {rows rows' : ExecutionRows}
    (h : RowsStep s a e d rows rows') (hd : rows.Of env d) (hinv : ExecInv d rows)
    (hst : rows.execution.status = .SUCCEEDED) :
    rows'.execution = rows.execution ∧ rows'.dead_letter_jobs = rows.dead_letter_jobs ∧
      ∀ n, ∃ id, rows'.nodes.row n = { rows.nodes.row n with redis_message_id := id } := by
  -- a node that is about to move is in a status that excludes SUCCEEDED
  have absurd_of : ∀ {n : String}, n ∈ rows.nodes.keys →
      (rows.nodes.row n).status ≠ .SUCCEEDED → (rows.nodes.row n).status ≠ .SKIPPED → False :=
    fun hkey h1 h2 => hinv.not_succeeded (hd.2.2 ▸ hkey) h1 h2 hst
  cases h with
  | quiet hexec hkeys hrow hdead => exact ⟨hexec, hdead, hrow⟩
  | run n hkey hn =>
      exact (absurd_of hkey (by rcases hn with hn | hn <;> simp [hn])
        (by rcases hn with hn | hn <;> simp [hn])).elim
  | retry n hkey hn => exact (absurd_of hkey (by simp [hn]) (by simp [hn])).elim
  | complete ha hphase he hdef hframe hends hdone =>
      cases hdone with
      | succeed targets _ hkey hrun =>
          exact (absurd_of hkey (by simp [hrun]) (by simp [hrun])).elim
      | requeue hkey hrun => exact (absurd_of hkey (by simp [hrun]) (by simp [hrun])).elim
      | bury hkey hrun => exact (absurd_of hkey (by simp [hrun]) (by simp [hrun])).elim

end Final

/-- **A SUCCEEDED execution is final.** All its nodes are SUCCEEDED or SKIPPED, and a step
that is not its deletion leaves its status, every node's status, attempt and output and
its dead-letter rows as they are, and leaves nobody owing it a publish who did not owe it
before. An execution becomes SUCCEEDED when every node is SUCCEEDED or SKIPPED. No step of
a worker applies to such a node: a claim needs QUEUED, a completion RUNNING, and a manual
retry DEAD_LETTERED. -/
theorem succeeded_final (env : Env) (s : Sys) (e : ℕ) (rows : ExecutionRows)
    (d : WorkflowDefinition) (hrun : AtomicRun env Sys.init s)
    (hrows : s.executions e = some rows) (hd : rows.Of env d)
    (hst : rows.execution.status = .SUCCEEDED) :
    (∀ n ∈ d.node_ids,
      (rows.nodes.row n).status = .SUCCEEDED ∨ (rows.nodes.row n).status = .SKIPPED) ∧
    ∀ a s', a.atomic = true → (∀ owner, a ≠ .delete e owner) → s.step env a = some s' →
      (∃ rows', s'.executions e = some rows' ∧
        rows'.execution.status = .SUCCEEDED ∧
        rows'.dead_letter_jobs = rows.dead_letter_jobs ∧
        ∀ n, (rows'.nodes.row n).status = (rows.nodes.row n).status ∧
          (rows'.nodes.row n).attempt = (rows.nodes.row n).attempt ∧
          (rows'.nodes.row n).output_payload = (rows.nodes.row n).output_payload) ∧
      ∀ t job, job ∈ (s'.tasks t).phase.owes → job.execution_id = e →
        job ∈ (s.tasks t).phase.owes := by
  have hinv := atomicInv_of_run hrun
  have hexec := hinv.exec e rows d hrows hd
  refine ⟨hexec.succeeded hst, fun a s' ha hdel hs => ?_⟩
  obtain ⟨u, hu, rfl⟩ := Option.map_eq_some_iff.mp hs
  have heff := effect_of_act hinv.typed hu
  constructor
  · obtain ⟨rows', hrows'⟩ := heff.stays_stored hrows hdel
    refine ⟨rows', hrows', ?_⟩
    rcases heff.rowsStep hinv.typed ha hrows' with
      ⟨_, _, _, _, _, _, -, he, -, -⟩ | ⟨r, d', hr, hd', hstep⟩
    · have := hinv.typed.lt hrows
      omega
    · rw [hrows, Option.some.injEq] at hr
      subst hr
      obtain rfl := hd.unique hd'
      -- no node can be claimed, completed or retried, so the step is a quiet one
      obtain ⟨hsame, hdead, hrow⟩ := hstep.quiet_of_succeeded hd hexec hst
      refine ⟨hsame ▸ hst, hdead, fun n => ?_⟩
      obtain ⟨id, hn⟩ := hrow n
      simp [hn]
  · -- a publish that is owed anew is of a node that is QUEUED or RUNNING
    rintro t job hjob rfl
    rcases heff.owes hinv.typed hjob with hold | hnone | ⟨rows₀, n, hrows₀, hn, hbusy⟩
    · exact hold
    · rw [hrows] at hnone
      cases hnone
    · rw [hrows, Option.some.injEq] at hrows₀
      subst hrows₀
      refine absurd hst (hexec.not_succeeded (hd.2.2 ▸ hn) ?_ ?_)
      · rcases hbusy with hb | hb <;> simp [hb]
      · rcases hbusy with hb | hb <;> simp [hb]

/-- `solo` after a first success. -/
theorem succeeded_final_solo :
    ∃ s rows, atomic_run solo [.start 0 0 none 0, .publish 0, .claim 1 0, .flush 1, .flush 1,
        .invoke 1, .complete 1 succeeded] = some s ∧
      s.executions 0 = some rows ∧ rows.execution.status = .SUCCEEDED ∧
      (rows.nodes.row "a").status ≠ .PENDING := by
  have ha : (atomic_run solo [.start 0 0 none 0, .publish 0, .claim 1 0, .flush 1, .flush 1,
      .invoke 1, .complete 1 succeeded]).bind (fun s => s.execution_status 0)
        = some .SUCCEEDED := by
    decide +kernel
  obtain ⟨s, hs, hst⟩ := Option.bind_eq_some_iff.mp ha
  have hrun := atomicRun_of_run hs
  obtain ⟨rows, hrows, hst⟩ := Option.map_eq_some_iff.mp hst
  obtain ⟨d, hd⟩ := (typed_of_reaches hrun).rows _ _ hrows
  obtain rfl := of_env_of hd
  refine ⟨s, rows, hs, hrows, hst, ?_⟩
  rcases (succeeded_final (env_of solo) s 0 rows solo hrun hrows hd hst).1 "a" (by decide) with
    h | h <;> simp [h]

end EventFlow
