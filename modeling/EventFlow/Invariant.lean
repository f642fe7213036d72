/-
The invariants of one execution, over every run of the atomic alphabet.

[`DagInv`] is about the node rows and the definition: who may be active, that
skipping is closed under successors, that a PENDING node still waits for
somebody. [`ExecInv`] is about the execution row and its nodes. Both are kept
by every `RowsStep`; the second one needs to know how stale the instance of a
completing task can be, which is [`CachedInv`]: the instance says RUNNING, or
the row does not say RUNNING any more.
-/
import EventFlow.SystemSpec

set_option autoImplicit false

namespace EventFlow

open Transition

/-! ## Node rows -/

/-- The statuses of a node that has been given work. -/
def NodeExecutionStatus.active : NodeExecutionStatus → Bool
  | .QUEUED | .RUNNING | .SUCCEEDED | .DEAD_LETTERED => true
  | _ => false

/-- What the statuses of the nodes of one execution satisfy. -/
structure DagInv (d : WorkflowDefinition) (nodes : Table String NodeExecution) : Prop where
  /-- Work is only given to nodes whose parents have all succeeded. -/
  active : ∀ n, (nodes.row n).status.active = true → ParentsSucceeded d nodes n
  /-- What follows a skipped node is skipped. -/
  skipped : ∀ n c, c ∈ d.child_ids n → (nodes.row n).status = .SKIPPED →
    (nodes.row c).status = .SKIPPED
  /-- A PENDING node waits for a parent. -/
  pending : ∀ n ∈ d.node_ids, (nodes.row n).status = .PENDING →
    ∃ p ∈ d.parent_ids n, (nodes.row p).status ≠ .SUCCEEDED
  /-- FAILED and RETRYING are never committed. -/
  settled : ∀ n, (nodes.row n).status ≠ .FAILED ∧ (nodes.row n).status ≠ .RETRYING

section DagInv

variable {d : WorkflowDefinition} {nodes : Table String NodeExecution} {n : String}

/-- Only statuses matter. -/
theorem DagInv.congr {nodes' : Table String NodeExecution} (h : DagInv d nodes)
    (hst : ∀ m, (nodes'.row m).status = (nodes.row m).status) : DagInv d nodes' := by
  constructor
  · intro m hm p hp
    rw [hst]
    exact h.active m (hst m ▸ hm) p hp
  · intro m c hc hm
    rw [hst]
    exact h.skipped m c hc (hst m ▸ hm)
  · intro m hm hpend
    obtain ⟨p, hp, hne⟩ := h.pending m hm (hst m ▸ hpend)
    exact ⟨p, hp, by rwa [hst]⟩
  · intro m
    rw [hst]
    exact h.settled m

/-- A node that has work and has not succeeded may take any other such status. No field of
the invariant tells such statuses apart: that the parents of a node with work are done,
that skipping is closed, and that a PENDING node waits for somebody. -/
theorem DagInv.set_active {node : NodeExecution} (h : DagInv d nodes)
    (hold : (nodes.row n).status.active = true) (hold' : (nodes.row n).status ≠ .SUCCEEDED)
    (hnew : node.status.active = true) (hnew' : node.status ≠ .SUCCEEDED) :
    DagInv d (nodes.set n node) := by
  -- the same nodes are SUCCEEDED, and no other node changes
  have hsucc : ∀ m, ((nodes.set n node).row m).status = .SUCCEEDED ↔
      (nodes.row m).status = .SUCCEEDED := by
    intro m
    by_cases hm : m = n
    · subst hm
      simp [hnew', hold']
    · rw [Table.row_set_of_ne _ _ hm]
  have hne : ∀ m (st : NodeExecutionStatus), st.active = false →
      ((nodes.set n node).row m).status = st → (nodes.row m).status = st := by
    intro m st hst hm
    by_cases hmn : m = n
    · subst hmn
      rw [Table.row_set_self] at hm
      rw [hm, hst] at hnew
      cases hnew
    · rwa [Table.row_set_of_ne _ _ hmn] at hm
  constructor
  · intro m hm p hp
    rw [hsucc]
    by_cases hmn : m = n
    · subst hmn
      exact h.active m hold p hp
    · rw [Table.row_set_of_ne _ _ hmn] at hm
      exact h.active m hm p hp
  · intro m c hc hm
    have hskip := h.skipped m c hc (hne m _ rfl hm)
    by_cases hcn : c = n
    · subst hcn
      rw [hskip] at hold
      cases hold
    · rwa [Table.row_set_of_ne _ _ hcn]
  · intro m hm hpend
    obtain ⟨p, hp, hpne⟩ := h.pending m hm (hne m _ rfl hpend)
    exact ⟨p, hp, fun hps => hpne ((hsucc p).mp hps)⟩
  · intro m
    exact ⟨fun hm => (h.settled m).1 (hne m _ rfl hm), fun hm => (h.settled m).2 (hne m _ rfl hm)⟩

/-- A node that waits for `c` has no work while `c` has not succeeded. -/
theorem DagInv.not_active_of_parent {c m : String}
    (h : DagInv d nodes) (hc : c ∈ d.parent_ids m) (hst : (nodes.row c).status ≠ .SUCCEEDED) :
    (nodes.row m).status = .PENDING ∨ (nodes.row m).status = .SKIPPED := by
  have hact := fun ha => hst (h.active m ha c hc)
  obtain ⟨hf, hr⟩ := h.settled m
  revert hact hf hr
  cases (nodes.row m).status <;> simp [NodeExecutionStatus.active]

/-! ### A success -/

section Succeed

variable {node : NodeExecution} {targets pubs : List String} {now : ℕ}
  {after : Table String NodeExecution}

/-- A row that is PENDING beside the one that has succeeded was PENDING. -/
theorem pending_of_set {m : String} (hst : node.status = .SUCCEEDED)
    (hm : ((nodes.set n node).row m).status = .PENDING) :
    m ≠ n ∧ (nodes.row m).status = .PENDING := by
  have hmn : m ≠ n := by
    rintro rfl
    rw [Table.row_set_self, hst] at hm
    cases hm
  rw [Table.row_set_of_ne _ _ hmn] at hm
  exact ⟨hmn, hm⟩

theorem DagInv.active_succeed (h : DagInv d nodes) (hrun : (nodes.row n).status = .RUNNING)
    (hst : node.status = .SUCCEEDED)
    (heff : DownstreamEffect d n targets now (nodes.set n node) after pubs) {m : String}
    (hm : (after.row m).status.active = true) : ParentsSucceeded d after m := by
  intro p hp
  rw [heff.succeeded_iff]
  rcases heff.cases m with ⟨-, -, heq⟩ | ⟨-, -, hpar, -⟩ | ⟨-, -, heq⟩
  · rw [heq, NodeExecution.enter_status] at hm
    cases hm
  · exact hpar p hp
  · refine Table.row_set_of (fun row : NodeExecution => row.status = .SUCCEEDED) hst
      (h.active m ?_ p hp)
    by_cases hmn : m = n
    · subst hmn
      rw [hrun]
      rfl
    · rwa [heq, Table.row_set_of_ne _ _ hmn] at hm

/-- After a success a child of a SKIPPED node is SKIPPED. If the node was SKIPPED before,
so was the child, and no commit changes that. If the cascade has just reached it, the
cascade goes on to its children, none of which can have had work, since their parent was
PENDING. -/
theorem DagInv.skipped_succeed (hd : WellFormed d) (h : DagInv d nodes)
    (hkeys : nodes.keys = d.node_ids) (hrun : (nodes.row n).status = .RUNNING)
    (hst : node.status = .SUCCEEDED)
    (heff : DownstreamEffect d n targets now (nodes.set n node) after pubs) {m c : String}
    (hc : c ∈ d.child_ids m) (hm : (after.row m).status = .SKIPPED) :
    (after.row c).status = .SKIPPED := by
  have hparent := WorkflowDefinition.mem_child_ids_iff_mem_parent_ids.mp hc
  rcases heff.cases m with ⟨hskip, hp, -⟩ | ⟨-, -, -, heq⟩ | ⟨-, -, heq⟩
  · -- a child of a PENDING node has no work yet
    obtain ⟨hmn, hp'⟩ := pending_of_set hst hp
    rcases h.not_active_of_parent hparent (by simp [hp']) with hcp | hcs
    · have hcn : c ≠ n := by
        rintro rfl
        rw [hrun] at hcp
        cases hcp
      have hopen : Open (nodes.set n node) c := by
        refine ⟨?_, by rw [Table.row_set_of_ne _ _ hcn, hcp]⟩
        rw [Table.keys_set, hkeys]
        exact hd.child_mem hc
      rw [heff.skipped c (.step hskip hc hopen), NodeExecution.enter_status]
    · rw [heff.row_of_settled hrun (.inr hcs), hcs]
  · rw [heq, NodeExecution.enter_status] at hm
    cases hm
  · have hmn : m ≠ n := by
      rintro rfl
      rw [heq, Table.row_set_self, hst] at hm
      cases hm
    rw [heq, Table.row_set_of_ne _ _ hmn] at hm
    have hcs := h.skipped m c hc hm
    rw [heff.row_of_settled hrun (.inr hcs), hcs]

theorem DagInv.pending_succeed (h : DagInv d nodes) (hkeys : nodes.keys = d.node_ids)
    (hst : node.status = .SUCCEEDED)
    (heff : DownstreamEffect d n targets now (nodes.set n node) after pubs) {m : String}
    (hm : m ∈ d.node_ids) (hmp : (after.row m).status = .PENDING) :
    ∃ p ∈ d.parent_ids m, (after.row p).status ≠ .SUCCEEDED := by
  rcases heff.cases m with ⟨-, -, heq⟩ | ⟨-, -, -, heq⟩ | ⟨hskip, hpub, heq⟩
  · rw [heq, NodeExecution.enter_status] at hmp
    cases hmp
  · rw [heq, NodeExecution.enter_status] at hmp
    cases hmp
  · rw [heq] at hmp
    obtain ⟨hmn, hmp'⟩ := pending_of_set hst hmp
    have hwait : ∃ p ∈ d.parent_ids m, ((nodes.set n node).row p).status ≠ .SUCCEEDED := by
      by_cases hc : m ∈ d.child_ids n
      · by_contra hall
        push Not at hall
        refine hpub ((heff.mem_pubs m).mpr ⟨hc, ⟨⟨?_, hmp⟩, hall⟩, hskip⟩)
        rw [Table.keys_set, hkeys]
        exact hm
      · obtain ⟨p, hp, hne⟩ := h.pending m hm hmp'
        have hpn : p ≠ n := by
          rintro rfl
          exact hc (WorkflowDefinition.mem_child_ids_iff_mem_parent_ids.mpr hp)
        exact ⟨p, hp, by rwa [Table.row_set_of_ne _ _ hpn]⟩
    obtain ⟨p, hp, hne⟩ := hwait
    exact ⟨p, hp, fun hs => hne ((heff.succeeded_iff p).mp hs)⟩

theorem DagInv.settled_succeed (h : DagInv d nodes) (hst : node.status = .SUCCEEDED)
    (heff : DownstreamEffect d n targets now (nodes.set n node) after pubs) (m : String) :
    (after.row m).status ≠ .FAILED ∧ (after.row m).status ≠ .RETRYING := by
  rcases heff.cases m with ⟨-, -, heq⟩ | ⟨-, -, -, heq⟩ | ⟨-, -, heq⟩
  · simp [heq]
  · simp [heq]
  · rw [heq]
    by_cases hmn : m = n
    · subst hmn
      simp [hst]
    · rw [Table.row_set_of_ne _ _ hmn]
      exact h.settled m

/-- **A completed node keeps the invariant.** Skipping is closed under
successors because a successor of a PENDING node is PENDING or SKIPPED; a child
that is left PENDING has failed the join test. -/
theorem DagInv.succeed (hd : WellFormed d) (h : DagInv d nodes)
    (hkeys : nodes.keys = d.node_ids) (hrun : (nodes.row n).status = .RUNNING)
    (hst : node.status = .SUCCEEDED)
    (heff : DownstreamEffect d n targets now (nodes.set n node) after pubs) :
    DagInv d after where
  active := fun _ hm => h.active_succeed hrun hst heff hm
  skipped := fun _ _ hc hm => h.skipped_succeed hd hkeys hrun hst heff hc hm
  pending := fun _ hm hmp => h.pending_succeed hkeys hst heff hm hmp
  settled := h.settled_succeed hst heff

end Succeed

/-- **One step.** A step that starts or retries a node moves it among statuses with work.
A completion with a failure does the same; a completion with a success queues and skips
nodes, and is [`DagInv.succeed`]. -/
theorem RowsStep.dagInv {env : Env} {s : Sys} {a : Action} {e : ℕ}
    {rows rows' : ExecutionRows} (h : RowsStep s a e d rows rows') (hd : rows.Of env d)
    (hinv : DagInv d rows.nodes) : DagInv d rows'.nodes := by
  cases h with
  | quiet hexec hkeys hrow hdead =>
      refine hinv.congr fun m => ?_
      obtain ⟨id, hm⟩ := hrow m
      rw [hm]
  | run n hkey hst =>
      refine hinv.set_active ?_ ?_ (by rw [NodeExecution.enter_status]; rfl) (by simp)
      · rcases hst with hst | hst <;> rw [hst] <;> rfl
      · rcases hst with hst | hst <;> simp [hst]
  | retry n hkey hst =>
      exact hinv.set_active (by rw [hst]; rfl) (by simp [hst])
        (by rw [NodeExecution.enter_status]; rfl) (by simp)
  | complete ha hphase he hdef hframe hends hdone =>
      cases hdone with
      | succeed targets _ hkey hrun hres hT heff hdead hexec =>
          exact hinv.succeed hd.wellFormed hd.2.2 hrun (NodeExecution.enter_status ..) heff
      | requeue hkey hrun hres hleft hnodes hdead hexec =>
          rw [hnodes]
          exact hinv.set_active (by rw [hrun]; rfl) (by simp [hrun])
            (by rw [NodeExecution.retry, NodeExecution.enter_status]; rfl)
            (by simp [NodeExecution.retry])
      | bury hkey hrun hres hleft hnodes hdead hexec =>
          rw [hnodes]
          exact hinv.set_active (by rw [hrun]; rfl) (by simp [hrun])
            (by rw [NodeExecution.dead_letter, NodeExecution.enter_status]; rfl)
            (by simp [NodeExecution.dead_letter])

end DagInv

/-- What `start_execution` leaves in the rows. -/
structure Started (d : WorkflowDefinition) (rows : ExecutionRows) : Prop where
  status : rows.execution.status = .RUNNING
  finished_at : rows.execution.finished_at = none
  dead_letter_jobs : rows.dead_letter_jobs = []
  root : ∀ n ∈ d.node_ids, d.parent_ids n = [] →
    ∃ now, rows.nodes.row n = (initial_node d n).enter .QUEUED now
  other : ∀ n, ¬ (n ∈ d.node_ids ∧ d.parent_ids n = []) → rows.nodes.row n = initial_node d n

theorem started_of_start {env : Env} {vid owner eid now : ℕ} {input : Option JsonObject}
    {session : Session} {pubs : List String}
    (h : start_execution env vid input owner eid now = .ok (session, pubs)) :
    ∃ d, session.inserted.Of env d ∧ Started d session.inserted := by
  obtain ⟨version, hversion, hacc, hsteps, hkeys, hst, hfin, hvid, -, hdead, -, rfl, hq, hkeep⟩ :=
    start_execution_spec h
  refine ⟨version.definition, ⟨⟨version, ?_, rfl⟩, hacc, hkeys⟩, hst, hfin, hdead, ?_, ?_⟩
  · change env.versions session.execution.workflow_version_id = _
    rw [hvid, hversion]
  · intro n hn hroot
    exact ⟨now, hq n (List.mem_filter.mpr ⟨hn, by simpa using hroot⟩)⟩
  · intro n hn
    refine hkeep n fun hmem => hn ?_
    simpa using List.mem_filter.mp hmem

/-- A node of a new execution is QUEUED if it is a root, else PENDING. -/
theorem Started.node_status {d : WorkflowDefinition} {rows : ExecutionRows} (h : Started d rows)
    (n : String) : (rows.nodes.row n).status
      = if n ∈ d.node_ids ∧ d.parent_ids n = [] then .QUEUED else .PENDING := by
  split
  · rename_i hn
    obtain ⟨now, hrow⟩ := h.root n hn.1 hn.2
    rw [hrow, NodeExecution.enter_status]
  · rename_i hn
    rw [h.other n hn, initial_node_status]

theorem Started.dagInv {d : WorkflowDefinition} {rows : ExecutionRows} (h : Started d rows) :
    DagInv d rows.nodes := by
  constructor
  · intro n hact p hp
    rw [h.node_status] at hact
    split at hact
    · rename_i hn
      rw [hn.2] at hp
      cases hp
    · cases hact
  · intro n c _ hn
    rw [h.node_status] at hn
    split at hn <;> cases hn
  · intro n hn hpend
    rw [h.node_status] at hpend
    split at hpend
    · cases hpend
    · rename_i hroot
      obtain ⟨p, hp⟩ := List.exists_mem_of_ne_nil _ fun hnil => hroot ⟨hn, hnil⟩
      refine ⟨p, hp, ?_⟩
      rw [h.node_status]
      split <;> simp
  · intro n
    rw [h.node_status]
    split <;> simp

/-! ## The execution row -/

/-- What the status of an execution says about its nodes. -/
structure ExecInv (d : WorkflowDefinition) (rows : ExecutionRows) : Prop where
  status : rows.execution.status = .RUNNING ∨ rows.execution.status = .SUCCEEDED ∨
    rows.execution.status = .FAILED
  /-- A SUCCEEDED execution has nothing left to do. -/
  succeeded : rows.execution.status = .SUCCEEDED → ∀ n ∈ d.node_ids,
    (rows.nodes.row n).status = .SUCCEEDED ∨ (rows.nodes.row n).status = .SKIPPED
  /-- A dead-lettered node has failed the execution. -/
  dead : ∀ n ∈ d.node_ids, (rows.nodes.row n).status = .DEAD_LETTERED →
    rows.execution.status = .FAILED
  /-- An execution only fails with a dead-letter row. -/
  failed : rows.execution.status = .FAILED → rows.dead_letter_jobs ≠ []
  /-- A RUNNING execution has something to run. -/
  busy : rows.execution.status = .RUNNING → d.node_ids ≠ [] → ∃ n ∈ d.node_ids,
    (rows.nodes.row n).status = .QUEUED ∨ (rows.nodes.row n).status = .RUNNING

/-- **Every PENDING node waits for an ancestor that has work or is dead.** By
induction along the DAG: a parent that has not succeeded is PENDING, and waits
itself, or is such an ancestor; it cannot be SKIPPED. -/
theorem DagInv.pending_ancestor {d : WorkflowDefinition} {nodes : Table String NodeExecution}
    (hd : WellFormed d) (h : DagInv d nodes) (n : String) (hn : n ∈ d.node_ids)
    (hpend : (nodes.row n).status = .PENDING) :
    ∃ a ∈ d.node_ids, Relation.TransGen (fun p c => p ∈ d.parent_ids c) a n ∧
      ((nodes.row a).status = .QUEUED ∨ (nodes.row a).status = .RUNNING ∨
        (nodes.row a).status = .DEAD_LETTERED) := by
  revert hn hpend
  refine hd.induction (P := fun n => n ∈ d.node_ids → (nodes.row n).status = .PENDING → ∃ a ∈
    d.node_ids, Relation.TransGen (fun p c => p ∈ d.parent_ids c) a n ∧
      ((nodes.row a).status = .QUEUED ∨ (nodes.row a).status = .RUNNING ∨
        (nodes.row a).status = .DEAD_LETTERED)) (fun n ih hn hpend => ?_) n
  obtain ⟨p, hp, hne⟩ := h.pending n hn hpend
  have hpn := hd.parent_mem hp
  have hskip : (nodes.row p).status ≠ .SKIPPED := by
    intro hs
    have := h.skipped p n (WorkflowDefinition.mem_child_ids_iff_mem_parent_ids.mpr hp) hs
    rw [hpend] at this
    cases this
  obtain ⟨hf, hr⟩ := h.settled p
  cases hst : (nodes.row p).status with
  | PENDING =>
      obtain ⟨a, ha, hpath, hsta⟩ := ih p hp hpn hst
      exact ⟨a, ha, hpath.tail hp, hsta⟩
  | QUEUED => exact ⟨p, hpn, .single hp, .inl hst⟩
  | RUNNING => exact ⟨p, hpn, .single hp, .inr (.inl hst)⟩
  | DEAD_LETTERED => exact ⟨p, hpn, .single hp, .inr (.inr hst)⟩
  | SUCCEEDED => exact absurd hst hne
  | FAILED => exact absurd hst hf
  | RETRYING => exact absurd hst hr
  | SKIPPED => exact absurd hst hskip

/-- The two ways the all-terminal test goes. The test is that all nodes are terminal and
that the instance says RUNNING. It fails if one is not terminal or if the instance is
stale; otherwise a node that is dead decides. -/
theorem finalised_cases (nodes : Table String NodeExecution) (execution : Execution) (now : ℕ) :
    (finalised nodes execution now = execution ∧ (execution.status ≠ .RUNNING ∨
      ∃ m ∈ nodes.keys, (nodes.row m).status ∉ TERMINAL_NODE_STATUSES)) ∨
    (execution.status = .RUNNING ∧
      ((∃ m ∈ nodes.keys, (nodes.row m).status = .FAILED ∨
        (nodes.row m).status = .DEAD_LETTERED) ∧
          finalised nodes execution now = execution.enter .FAILED now ∨
        (∀ m ∈ nodes.keys, (nodes.row m).status = .SUCCEEDED ∨
          (nodes.row m).status = .SKIPPED) ∧
          finalised nodes execution now = execution.enter .SUCCEEDED now)) := by
  by_cases hend : (nodes.all.all fun ne => ne.status ∈ TERMINAL_NODE_STATUSES) ∧
      execution.status = .RUNNING
  · have hall : ∀ m ∈ nodes.keys, (nodes.row m).status ∈ TERMINAL_NODE_STATUSES := by
      intro m hm
      simpa using List.all_eq_true.mp hend.1 _ (Table.mem_all.mpr ⟨m, hm, rfl⟩)
    refine .inr ⟨hend.2, ?_⟩
    rw [finalised, if_pos hend]
    by_cases hany : nodes.all.any fun ne => ne.status ∈ [.FAILED, .DEAD_LETTERED]
    · refine .inl ⟨?_, by rw [if_pos hany]⟩
      obtain ⟨ne, hne, hst⟩ := List.any_eq_true.mp hany
      obtain ⟨m, hm, rfl⟩ := Table.mem_all.mp hne
      exact ⟨m, hm, by simpa using hst⟩
    · refine .inr ⟨fun m hm => ?_, by rw [if_neg hany]⟩
      have hno : ¬ ((nodes.row m).status = .FAILED ∨ (nodes.row m).status = .DEAD_LETTERED) :=
        fun hst => hany (List.any_eq_true.mpr
          ⟨_, Table.mem_all.mpr ⟨m, hm, rfl⟩, by simpa using hst⟩)
      have := hall m hm
      simp only [TERMINAL_NODE_STATUSES, List.mem_cons, List.not_mem_nil, or_false] at this
      tauto
  · -- it is left alone, so one of the two conditions fails
    refine .inl ⟨if_neg hend, ?_⟩
    by_contra hno
    push Not at hno
    refine hend ⟨List.all_eq_true.mpr fun ne hne => ?_, hno.1⟩
    obtain ⟨m, hm, rfl⟩ := Table.mem_all.mp hne
    simpa using hno.2 m hm

/-- A stale RUNNING instance overwrites the status, whatever it is by then. -/
theorem flush_enter_status {execution stored : Execution} {status : ExecutionStatus} {now : ℕ}
    (hrun : execution.status = .RUNNING) (hst : status ≠ .RUNNING) :
    (execution.flush (execution.enter status now) stored).status = status := by
  simp only [Execution.flush, written, Execution.enter_status, hrun, if_neg hst]

section ExecInv

variable {d : WorkflowDefinition} {rows rows' : ExecutionRows} {n : String}

/-- Work in an execution means that it has not succeeded. -/
theorem ExecInv.not_succeeded (h : ExecInv d rows) (hn : n ∈ d.node_ids)
    (hst : (rows.nodes.row n).status ≠ .SUCCEEDED) (hst' : (rows.nodes.row n).status ≠ .SKIPPED) :
    rows.execution.status ≠ .SUCCEEDED := by
  intro hs
  rcases h.succeeded hs n hn with h1 | h1
  · exact hst h1
  · exact hst' h1

theorem ExecInv.quiet (h : ExecInv d rows) (hexec : rows'.execution = rows.execution)
    (hrow : ∀ n, (rows'.nodes.row n).status = (rows.nodes.row n).status)
    (hdead : rows'.dead_letter_jobs = rows.dead_letter_jobs) : ExecInv d rows' := by
  refine ⟨hexec ▸ h.status, fun hs m hm => ?_, fun m hm hst => ?_, fun hf => ?_,
    fun hr hne => ?_⟩
  · rw [hrow]
    exact h.succeeded (hexec ▸ hs) m hm
  · rw [hexec]
    exact h.dead m hm (hrow m ▸ hst)
  · rw [hdead]
    exact h.failed (hexec ▸ hf)
  · obtain ⟨m, hm, hst⟩ := h.busy (hexec ▸ hr) hne
    exact ⟨m, hm, by rwa [hrow]⟩

/-- One node is given work again while the execution row stays. -/
theorem ExecInv.set_busy (h : ExecInv d rows) {node : NodeExecution}
    (hn : n ∈ d.node_ids) (hexec : rows'.execution = rows.execution)
    (hnodes : rows'.nodes = rows.nodes.set n node)
    (hold : (rows.nodes.row n).status ≠ .SUCCEEDED)
    (hold' : (rows.nodes.row n).status ≠ .SKIPPED)
    (hnew : node.status = .QUEUED ∨ node.status = .RUNNING)
    (hdead : rows.dead_letter_jobs ≠ [] → rows'.dead_letter_jobs ≠ []) : ExecInv d rows' := by
  refine ⟨hexec ▸ h.status, fun hs => ?_, fun m hm hst => ?_, fun hf => ?_, fun _ _ => ?_⟩
  · exact absurd (hexec ▸ hs) (h.not_succeeded hn hold hold')
  · rw [hnodes] at hst
    have hmn : m ≠ n := by
      rintro rfl
      rw [Table.row_set_self] at hst
      rcases hnew with hnew | hnew <;> rw [hnew] at hst <;> cases hst
    rw [Table.row_set_of_ne _ _ hmn] at hst
    rw [hexec]
    exact h.dead m hm hst
  · exact hdead (h.failed (hexec ▸ hf))
  · exact ⟨n, hn, by rwa [hnodes, Table.row_set_self]⟩

/-- The end of a successful completion. What is to be shown is that the status fits the
nodes. As long as a node is not terminal the test does not pass, and the execution stays
as it was. If it passes, the status becomes FAILED or SUCCEEDED according to whether one
of the nodes is dead. That the instance of the task may be stale does not matter: it is
stale only if the row is RUNNING no more, and then the flush keeps the row. -/
theorem ExecInv.succeed {node : NodeExecution} {targets pubs : List String} {now : ℕ}
    {execution : Execution} (hd : WellFormed d) (h : ExecInv d rows)
    (hkeys : rows'.nodes.keys = d.node_ids) (hdag : DagInv d rows'.nodes)
    (hn : n ∈ d.node_ids) (hrun : (rows.nodes.row n).status = .RUNNING)
    (hst : node.status = .SUCCEEDED)
    (hcached : execution.status = .RUNNING ∨ rows.execution.status ≠ .RUNNING)
    (heff : DownstreamEffect d n targets now (rows.nodes.set n node) rows'.nodes pubs)
    (hexec : rows'.execution
      = execution.flush (finalised rows'.nodes execution now) rows.execution)
    (hdead : rows'.dead_letter_jobs = rows.dead_letter_jobs) : ExecInv d rows' := by
  have hns := h.not_succeeded hn (by simp [hrun]) (by simp [hrun])
  -- a node that is dead now was dead before, so the execution had failed
  have hfailed : ∀ m ∈ d.node_ids, (rows'.nodes.row m).status = .DEAD_LETTERED →
      rows.execution.status = .FAILED := by
    intro m hm hdl
    rcases heff.cases m with ⟨-, -, heq⟩ | ⟨-, -, -, heq⟩ | ⟨-, -, heq⟩
    · rw [heq, NodeExecution.enter_status] at hdl
      cases hdl
    · rw [heq, NodeExecution.enter_status] at hdl
      cases hdl
    · rw [heq] at hdl
      have hmn : m ≠ n := by
        rintro rfl
        rw [Table.row_set_self, hst] at hdl
        cases hdl
      rw [Table.row_set_of_ne _ _ hmn] at hdl
      exact h.dead m hm hdl
  rcases finalised_cases rows'.nodes execution now with
    ⟨hsame, hopen⟩ | ⟨hr, ⟨⟨m, hm, hmst⟩, hend⟩ | ⟨hall, hend⟩⟩
  · rw [hsame, Execution.flush_untouched] at hexec
    refine ⟨hexec ▸ h.status, fun hs => absurd (hexec ▸ hs) hns, fun m hm hdl => ?_,
      fun hf => ?_, fun hrn hne => ?_⟩
    · rw [hexec]
      exact hfailed m hm hdl
    · rw [hdead]
      exact h.failed (hexec ▸ hf)
    · rw [hexec] at hrn
      have hcr : execution.status = .RUNNING := hcached.resolve_right (not_not.mpr hrn)
      obtain ⟨m, hm, hmt⟩ := hopen.resolve_left (not_not.mpr hcr)
      rw [hkeys] at hm
      have hnodead : ∀ a ∈ d.node_ids, (rows'.nodes.row a).status ≠ .DEAD_LETTERED := by
        intro a ha hdl
        rw [hfailed a ha hdl] at hrn
        cases hrn
      by_cases hmp : (rows'.nodes.row m).status = .PENDING
      · obtain ⟨a, ha, -, hst'⟩ := hdag.pending_ancestor hd m hm hmp
        have := hnodead a ha
        exact ⟨a, ha, by tauto⟩
      · refine ⟨m, hm, ?_⟩
        have := (hdag.settled m).2
        revert hmp hmt this
        cases (rows'.nodes.row m).status <;> simp [TERMINAL_NODE_STATUSES]
  · have hf : rows'.execution.status = .FAILED := by
      rw [hexec, hend, flush_enter_status hr (by simp)]
    have hmd : (rows'.nodes.row m).status = .DEAD_LETTERED :=
      hmst.resolve_left (hdag.settled m).1
    refine ⟨.inr (.inr hf), fun hs => ?_, fun _ _ _ => hf, fun _ => ?_, fun hrn => ?_⟩
    · rw [hf] at hs
      cases hs
    · rw [hdead]
      exact h.failed (hfailed m (hkeys ▸ hm) hmd)
    · rw [hf] at hrn
      cases hrn
  · have hs : rows'.execution.status = .SUCCEEDED := by
      rw [hexec, hend, flush_enter_status hr (by simp)]
    refine ⟨.inr (.inl hs), fun _ m hm => hall m (hkeys ▸ hm), fun m hm hdl => ?_,
      fun hf => ?_, fun hrn => ?_⟩
    · rcases hall m (hkeys ▸ hm) with h1 | h1 <;> rw [h1] at hdl <;> cases hdl
    · rw [hs] at hf
      cases hf
    · rw [hs] at hrn
      cases hrn

/-- The end of a completion that buries its node. -/
theorem ExecInv.bury {now : ℕ} {execution : Execution}
    {job : DeadLetterJob} (h : ExecInv d rows) (hn : n ∈ d.node_ids)
    (hrun : (rows.nodes.row n).status = .RUNNING)
    (hcached : execution.status = .RUNNING ∨ rows.execution.status ≠ .RUNNING)
    (hexec : rows'.execution = execution.flush
      (if execution.status = .RUNNING then execution.enter .FAILED now else execution)
      rows.execution)
    (hdead : rows'.dead_letter_jobs = rows.dead_letter_jobs ++ [job]) : ExecInv d rows' := by
  have hf : rows'.execution.status = .FAILED := by
    rw [hexec]
    by_cases hr : execution.status = .RUNNING
    · rw [if_pos hr, flush_enter_status hr (by simp)]
    · rw [if_neg hr, Execution.flush_untouched]
      have hns := h.not_succeeded hn (by simp [hrun]) (by simp [hrun])
      have hnr := hcached.resolve_left hr
      have := h.status
      tauto
  refine ⟨.inr (.inr hf), fun hs => ?_, fun _ _ _ => hf, fun _ => ?_, fun hrn => ?_⟩
  · rw [hf] at hs
    cases hs
  · rw [hdead]
    simp
  · rw [hf] at hrn
    cases hrn

/-- **One step.** The instance of a completing task may be stale, but it says RUNNING as
long as the row does. Apart from completions, only a manual retry is delicate: it gives
work to a node of an execution that has ended, and the invariant allows for that, because
the execution is FAILED and stays so. -/
theorem RowsStep.execInv {env : Env} {s : Sys} {a : Action} {e : ℕ}
    (h : RowsStep s a e d rows rows') (hd : rows.Of env d)
    (hcached : ∀ t m context execution, (s.tasks t).phase = .invoked m context execution →
      context.execution_id = e →
      execution.status = .RUNNING ∨ rows.execution.status ≠ .RUNNING)
    (hdag : DagInv d rows'.nodes) (hinv : ExecInv d rows) : ExecInv d rows' := by
  have hkeys := hd.2.2
  cases h with
  | quiet hexec hkeys hrow hdead =>
      refine hinv.quiet hexec (fun m => ?_) hdead
      obtain ⟨id, hm⟩ := hrow m
      rw [hm]
  | run n hkey hst =>
      refine hinv.set_busy (hkeys ▸ hkey) rfl rfl ?_ ?_ (.inr (by simp)) id
      · rcases hst with hst | hst <;> simp [hst]
      · rcases hst with hst | hst <;> simp [hst]
  | retry n hkey hst =>
      refine hinv.set_busy (hkeys ▸ hkey) rfl rfl (by simp [hst]) (by simp [hst])
        (.inl (by simp)) fun hne => ?_
      simpa [resolve_jobs] using hne
  | complete ha hphase he hdef hframe hends hdone =>
      -- if the row is RUNNING, so is the instance; the converse does not matter here
      have hc := hcached _ _ _ _ hphase he
      cases hdone with
      | succeed targets _ hkey hrun hres hT heff hdead hexec =>
          refine hinv.succeed hd.wellFormed (hframe.keys.trans hkeys) hdag (hkeys ▸ hkey) hrun
            (NodeExecution.enter_status ..) hc heff (by rw [hexec]) ?_
          simp only [hdead, List.append_nil]
      | requeue hkey hrun hres hleft hnodes hdead hexec =>
          refine hinv.set_busy (hkeys ▸ hkey) ?_ hnodes (by simp [hrun]) (by simp [hrun])
            (.inl (NodeExecution.enter_status ..)) fun hne => by simp [hne]
          simp only [hexec, Execution.flush_untouched]
      | bury hkey hrun hres hleft hnodes hdead hexec =>
          exact hinv.bury (hkeys ▸ hkey) hrun hc (by rw [hexec]) (by rw [hdead])

end ExecInv

theorem Started.execInv {d : WorkflowDefinition} {rows : ExecutionRows} (hd : WellFormed d)
    (h : Started d rows) : ExecInv d rows := by
  have hnt : ∀ n, (rows.nodes.row n).status = .QUEUED ∨ (rows.nodes.row n).status = .PENDING := by
    intro n
    rw [h.node_status]
    split <;> simp
  refine ⟨.inl h.status, fun hs => ?_, fun n _ hdl => ?_, fun hf => ?_, fun _ hne => ?_⟩
  · rw [h.status] at hs
    cases hs
  · rcases hnt n with h1 | h1 <;> rw [h1] at hdl <;> cases hdl
  · rw [h.status] at hf
    cases hf
  · obtain ⟨n, hn⟩ := List.exists_mem_of_ne_nil _ hne
    rcases hnt n with hq | hp
    · exact ⟨n, hn, .inl hq⟩
    · obtain ⟨a, ha, -, hst⟩ := h.dagInv.pending_ancestor hd n hn hp
      have := hnt a
      refine ⟨a, ha, ?_⟩
      rcases this with h1 | h1
      · exact .inl h1
      · rw [h1] at hst
        simp at hst

/-! ## Every reachable state -/

/-- The instance a task holds says RUNNING, or the row does not any more. -/
def CachedInv (s : Sys) : Prop :=
  ∀ t m context execution rows, (s.tasks t).phase = .invoked m context execution →
    s.executions context.execution_id = some rows →
    execution.status = .RUNNING ∨ rows.execution.status ≠ .RUNNING

/-- A worker that has claimed a node holds a node that has work. -/
def ClaimedInv (s : Sys) : Prop :=
  ∀ t m job attempt rows, (s.tasks t).phase = .claimed m job attempt →
    s.executions job.execution_id = some rows →
    job.node_id ∈ rows.nodes.keys ∧ (rows.nodes.row job.node_id).status.active = true

/-- All of the above for every stored execution. -/
structure AtomicInv (env : Env) (s : Sys) : Prop where
  typed : s.Typed env
  dag : ∀ e rows d, s.executions e = some rows → rows.Of env d → DagInv d rows.nodes
  exec : ∀ e rows d, s.executions e = some rows → rows.Of env d → ExecInv d rows
  cached : CachedInv s
  claimed : ClaimedInv s

/-- A step leaves the definition of an execution alone. -/
theorem RowsStep.of {env : Env} {s : Sys} {a : Action} {e : ℕ} {d : WorkflowDefinition}
    {rows rows' : ExecutionRows} (h : RowsStep s a e d rows rows') (hd : rows.Of env d) :
    rows'.Of env d := by
  cases h with
  | quiet hexec hkeys hrow hdead => exact hd.congr (by rw [hexec]) hkeys
  | run n hkey hst => exact hd.congr rfl rfl
  | retry n hkey hst => exact hd.congr rfl rfl
  | complete ha hphase he hdef hframe hends hdone => exact hd.congr rfl hframe.keys

/-- An execution that has ended does not go back to RUNNING. -/
theorem RowsStep.running {s : Sys} {a : Action} {e : ℕ} {d : WorkflowDefinition}
    {rows rows' : ExecutionRows} (h : RowsStep s a e d rows rows')
    (hrun : rows'.execution.status = .RUNNING) : rows.execution.status = .RUNNING := by
  cases h with
  | quiet hexec hkeys hrow hdead => exact hexec ▸ hrun
  | run n hkey hst => exact hrun
  | retry n hkey hst => exact hrun
  | @complete logs t m result context execution node_def session pubs ha hphase he hdef
      hframe hends hdone =>
      cases hends with
      | stays hexec hev =>
          have hexec : session.execution = execution := hexec
          simpa only [hexec, Execution.flush_untouched] using hrun
      | ends status hst hr hexec hev =>
          have hexec : session.execution = execution.enter status s.clock := hexec
          have hne : status ≠ .RUNNING := by rcases hst with rfl | rfl <;> simp
          have hend : (execution.flush session.execution rows.execution).status = status := by
            rw [hexec]
            exact flush_enter_status hr hne
          exact absurd (hend.symm.trans hrun) hne

/-- A node that has work keeps having work. A node with work is started, retried, buried
or brought to success, and each of these statuses counts as having or having had work. It
is not skipped, for the cascade takes PENDING nodes only. -/
theorem RowsStep.stays_active {s : Sys} {a : Action} {e : ℕ} {d : WorkflowDefinition}
    {rows rows' : ExecutionRows} (h : RowsStep s a e d rows rows') {n : String}
    (hact : (rows.nodes.row n).status.active = true) :
    (rows'.nodes.row n).status.active = true := by
  -- the rows of all other nodes are unchanged when one row is set to an active status
  have set : ∀ {m : String} {node : NodeExecution}, node.status.active = true →
      ((rows.nodes.set m node).row n).status.active = true :=
    fun hnode => Table.row_set_of (fun row : NodeExecution => row.status.active = true) hnode hact
  cases h with
  | quiet hexec hkeys hrow hdead =>
      obtain ⟨id, hn⟩ := hrow n
      rwa [hn]
  | run m hkey hst => exact set (by rw [NodeExecution.enter_status]; rfl)
  | retry m hkey hst => exact set (by rw [NodeExecution.enter_status]; rfl)
  | @complete logs t m result context execution node_def session pubs ha hphase he hdef
      hframe hends hdone =>
      by_cases hn : n = context.node_id
      · subst hn
        rcases hdone.own_row with hrow | ⟨hrow, -⟩ | hrow
        · rw [hrow, NodeExecution.succeed, NodeExecution.enter_status]
          rfl
        · rw [hrow, NodeExecution.retry, NodeExecution.enter_status]
          rfl
        · rw [hrow, NodeExecution.dead_letter, NodeExecution.enter_status]
          rfl
      · rw [hdone.level hn]
        · exact hact
        · intro hp
          rw [hp] at hact
          cases hact

section Reachable

variable {env : Env} {s s' : Sys} {a : Action}

/-- Only `invoke` leads to an executor. -/
theorem Effect.invoked {t m : ℕ} {context : ExecutionContext} {execution : Execution}
    (h : Effect env s a s') (hphase : (s'.tasks t).phase = .invoked m context execution) :
    (s.tasks t).phase = .invoked m context execution ∨
      ∃ job attempt rows d node_def, (s.tasks t).phase = .claimed m job attempt ∧
        s.executions job.execution_id = some rows ∧
        Sys.lookup env rows job.node_id = some (d, node_def) ∧
        context = build_context job.execution_id rows.execution rows.nodes d node_def
          job.node_id attempt ∧
        execution = rows.execution ∧ s'.executions = s.executions := by
  have hcomes := h.comes t
  rw [hphase] at hcomes
  cases hcomes with
  | stayed hold => exact .inl hold
  | invoked hold hrows hlookup hsame =>
      exact .inr ⟨_, _, _, _, _, hold, hrows, hlookup, rfl, rfl, hsame⟩

/-- Only a claim leads to a claimed node. -/
theorem Effect.claimed {t m attempt : ℕ} {job : Job} (h : Effect env s a s')
    (ha : a.atomic = true) (hphase : (s'.tasks t).phase = .claimed m job attempt) :
    (s.tasks t).phase = .claimed m job attempt ∨
      ∃ rows rows', s.executions job.execution_id = some rows ∧
        s'.executions job.execution_id = some rows' ∧ job.node_id ∈ rows.nodes.keys ∧
        rows'.nodes = rows.nodes.set job.node_id
          ((rows.nodes.row job.node_id).enter .RUNNING s.clock) ∧
        attempt = (rows.nodes.row job.node_id).attempt := by
  have hcomes := h.comes t
  rw [hphase] at hcomes
  cases hcomes with
  | stayed hold => exact .inl hold
  | claimed hclaim hentry hrows hkey hrows' hnodes =>
      exact .inr ⟨_, _, hrows, hrows', hkey, hnodes, rfl⟩
  | reclaimed hreclaim =>
      rw [hreclaim] at ha
      cases ha

/-- **One step keeps all of it.** The parts lean on each other in one order: the rows are
typed in every alphabet; then comes what is known of the nodes ([`RowsStep.dagInv`]), then
the execution row, for which the nodes after the step and the age of the instances are
needed ([`RowsStep.execInv`]), and last these instances themselves. -/
theorem AtomicInv.effect (h : AtomicInv env s) (heff : Effect env s a s')
    (ha : a.atomic = true) : AtomicInv env s' := by
  have hcached : ∀ e rows, s.executions e = some rows → ∀ t m context execution,
      (s.tasks t).phase = .invoked m context execution → context.execution_id = e →
      execution.status = .RUNNING ∨ rows.execution.status ≠ .RUNNING := by
    rintro e rows hrows t m context execution hphase rfl
    exact h.cached t m context execution rows hphase hrows
  have hboth : ∀ e rows d, s'.executions e = some rows → rows.Of env d →
      DagInv d rows.nodes ∧ ExecInv d rows := by
    intro e rows' d hrows' hd'
    rcases heff.rowsStep h.typed ha hrows' with
      ⟨t, vid, input, owner, session, pubs, -, -, hok, rfl⟩ | ⟨rows, d₀, hrows, hd, hstep⟩
    · obtain ⟨d₀, hd, hstarted⟩ := started_of_start hok
      obtain rfl := hd.unique hd'
      exact ⟨hstarted.dagInv, hstarted.execInv hd.wellFormed⟩
    · obtain rfl := (hstep.of hd).unique hd'
      have hdag := hstep.dagInv hd (h.dag e rows _ hrows hd)
      exact ⟨hdag, hstep.execInv hd (hcached e rows hrows) hdag (h.exec e rows _ hrows hd)⟩
  refine ⟨heff.typed h.typed, fun e rows d hr hd => (hboth e rows d hr hd).1,
    fun e rows d hr hd => (hboth e rows d hr hd).2, ?_, ?_⟩
  · intro t m context execution rows' hphase hrows'
    rcases heff.invoked hphase with hphase |
      ⟨job, attempt, rows, d, node_def, -, hrows, -, rfl, rfl, hsame⟩
    · rcases heff.rowsStep h.typed ha hrows' with
        ⟨t', vid, input, owner, session, pubs, -, he, -, -⟩ | ⟨rows, d, hrows, hd, hstep⟩
      · -- nobody holds an instance of an execution that is only now created
        have := h.typed.tasks t context.execution_id (by simp [hphase, Phase.execution_ids])
        omega
      · rcases hcached _ rows hrows t m context execution hphase rfl with hr | hr
        · exact .inl hr
        · exact .inr fun hr' => hr (hstep.running hr')
    · rw [hsame] at hrows'
      obtain rfl := Option.some.inj (hrows.symm.trans hrows')
      by_cases hr : rows.execution.status = .RUNNING
      · exact .inl hr
      · exact .inr hr
  · intro t m job attempt rows' hphase hrows'
    rcases heff.claimed ha hphase with hphase | ⟨rows, rows₁, hrows, hrows₁, hkey, hnodes, -⟩
    · rcases heff.rowsStep h.typed ha hrows' with
        ⟨t', vid, input, owner, session, pubs, -, he, -, -⟩ | ⟨rows, d, hrows, hd, hstep⟩
      · have := h.typed.tasks t job.execution_id (by simp [hphase, Phase.execution_ids])
        omega
      · obtain ⟨hkey, hact⟩ := h.claimed t m job attempt rows hphase hrows
        refine ⟨?_, hstep.stays_active hact⟩
        rw [(hstep.of hd).2.2, ← hd.2.2]
        exact hkey
    · rw [hrows₁, Option.some.injEq] at hrows'
      subst hrows'
      rw [hnodes, Table.row_set_self, NodeExecution.enter_status]
      exact ⟨hkey, rfl⟩

/-- The clock is no part of it. -/
theorem AtomicInv.step (h : AtomicInv env s) (hs : s.step env a = some s')
    (ha : a.atomic = true) : AtomicInv env s' := by
  obtain ⟨u, hu, rfl⟩ := Option.map_eq_some_iff.mp hs
  have hinv := h.effect (effect_of_act h.typed hu) ha
  exact ⟨typed_of_step h.typed hs, hinv.dag, hinv.exec, hinv.cached, hinv.claimed⟩

theorem atomicInv_init : AtomicInv env Sys.init :=
  ⟨typed_init, by simp [Sys.init], by simp [Sys.init], fun _ _ _ _ _ _ h => by simp [Sys.init] at h,
    fun _ _ _ _ _ _ h => by simp [Sys.init] at h⟩

/-- Runs of the atomic alphabet. -/
abbrev AtomicRun (env : Env) : Sys → Sys → Prop :=
  Reaches (Sys.step env) fun _ a => a.atomic = true

/-- **Every run keeps all of it.** From any state that satisfies them, not only from the
first. -/
theorem AtomicInv.run (h : AtomicInv env s) (hrun : AtomicRun env s s') : AtomicInv env s' :=
  hrun.invariant (AtomicInv env) h fun _ _ _ hinv ha hs => hinv.step hs ha

theorem atomicInv_of_run (hrun : AtomicRun env Sys.init s) : AtomicInv env s :=
  atomicInv_init.run hrun

end Reachable

end EventFlow
