/-
What becomes of a node when executors are functions of their input.

[`Fated`] says what a row may look like when the executor of its node would
always return `res`: it succeeds in its first attempt with that output, or it
fails in every attempt until it is dead-lettered. [`FateInv`] says so for all
nodes of an execution, with the result computed from the rows of their parents,
and adds which nodes are skipped: those with a skipped parent, and those that a
condition among their parents has not selected. It is kept by every step of the
workers ([`RowsStep.fateInv`]): a completion changes the outputs of one node
only, and no node that has work depends on it.

Together with `DagInv` the fate of a node is determined by its parents, which
is what `Confluence.lean` needs.
-/
import EventFlow.Safety

set_option autoImplicit false

namespace EventFlow

open Transition

/-! ## Functional executors -/

/-- The executors of all types, as functions of the configuration, the workflow
input and the upstream outputs. -/
abbrev Executors := String → JsonObject → JsonObject → JsonObject → ExecutorResult

/-- What the executor of `n` returns, given the rows as they are. -/
def expected (F : Executors) (d : WorkflowDefinition) (rows : ExecutionRows) (n : String)
    (node_def : Node) : ExecutorResult :=
  F node_def.type node_def.config (rows.execution.input_payload.getD [])
    (upstream_outputs rows.nodes (d.parent_ids n))

/-- Both branches of every condition node are among its direct successors. -/
def BranchesAreChildren (d : WorkflowDefinition) : Prop :=
  ∀ n node_def, d.node_def_by_id n = some node_def → node_def.type = "condition" →
    ∃ c c', JsonObject.get node_def.config "true_path" = .str c ∧ c ∈ d.child_ids n ∧
      JsonObject.get node_def.config "false_path" = .str c' ∧ c' ∈ d.child_ids n

section Branches

variable {d : WorkflowDefinition} {n : String} {node_def : Node}

/-- A string is added to the set or not. -/
theorem add_skip_id_str (chosen : Json) (ids : List String) (c : String) :
    ∃ ids', add_skip_id chosen ids (.str c) = .ok ids' ∧ ∀ x ∈ ids', x ∈ ids ∨ x = c := by
  unfold add_skip_id
  split
  · refine ⟨_, rfl, fun x hx => ?_⟩
    split at hx
    · exact .inl hx
    · exact (List.mem_append.mp hx).imp id List.mem_singleton.mp
  · exact ⟨ids, rfl, fun x hx => .inl hx⟩

/-- With such branches the unselected targets are children, and finding them
does not raise. -/
theorem branch_targets_ok (hbranch : BranchesAreChildren d)
    (hdef : d.node_def_by_id n = some node_def) (output : JsonObject) :
    ∃ targets, branch_targets d node_def n output = .ok targets ∧
      ∀ c ∈ targets, c ∈ d.child_ids n := by
  unfold branch_targets
  split
  · exact ⟨[], rfl, by simp⟩
  · unfold skip_ids
    split
    · rename_i htype
      obtain ⟨c, c', hc, hmem, hc', hmem'⟩ := hbranch n node_def hdef htype
      obtain ⟨ids, hids, hsub⟩ :=
        add_skip_id_str (JsonObject.get output "next_node") [] c
      obtain ⟨ids', hids', hsub'⟩ :=
        add_skip_id_str (JsonObject.get output "next_node") ids c'
      refine ⟨ids', ?_, fun x hx => ?_⟩
      · simp only [hc, hc', hids, hids', bind, Except.bind]
      · rcases hsub' x hx with hx | rfl
        · rcases hsub x hx with hx | rfl
          · cases hx
          · exact hmem
        · exact hmem'
    · exact ⟨[], rfl, by simp⟩

end Branches

/-! ## The fate of one row -/

/-- What the row of a node can be if its executor always returns `res` and it
has `limit` attempts. -/
structure Fated (res : ExecutorResult) (limit : ℕ) (node : NodeExecution) : Prop where
  max_attempts : node.max_attempts = limit
  waiting : node.status = .PENDING ∨ node.status = .SKIPPED →
    node.attempt = 0 ∧ node.output_payload = none
  busy : node.status = .QUEUED ∨ node.status = .RUNNING →
    node.output_payload = none ∧ 1 ≤ node.attempt ∧
      (node.attempt = 1 ∨ res.success = false ∧ node.attempt ≤ limit)
  succeeded : node.status = .SUCCEEDED →
    node.attempt = 1 ∧ res.success = true ∧ node.output_payload = some res.output
  dead : node.status = .DEAD_LETTERED →
    node.attempt = max 1 limit ∧ res.success = false ∧ node.output_payload = none

section Fated

variable {res res' : ExecutorResult} {limit now : ℕ} {node node' : NodeExecution}

theorem Fated.congr (h : Fated res limit node) (hmax : node'.max_attempts = node.max_attempts)
    (hst : node'.status = node.status) (hatt : node'.attempt = node.attempt)
    (hout : node'.output_payload = node.output_payload) : Fated res limit node' := by
  refine ⟨hmax.trans h.max_attempts, fun hs => ?_, fun hs => ?_, fun hs => ?_, fun hs => ?_⟩
  · rw [hatt, hout]
    exact h.waiting (hst ▸ hs)
  · rw [hatt, hout]
    exact h.busy (hst ▸ hs)
  · rw [hatt, hout]
    exact h.succeeded (hst ▸ hs)
  · rw [hatt, hout]
    exact h.dead (hst ▸ hs)

/-- As long as a node waits, or is in its first attempt, nothing depends on the
result. -/
theorem fated_of_waiting (hmax : node.max_attempts = limit)
    (h : (node.status = .PENDING ∨ node.status = .SKIPPED) ∧ node.attempt = 0 ∨
      node.status = .QUEUED ∧ node.attempt = 1) (hout : node.output_payload = none) :
    Fated res limit node := by
  rcases h with ⟨hst, hatt⟩ | ⟨hst, hatt⟩
  · refine ⟨hmax, fun _ => ⟨hatt, hout⟩, fun hs => ?_, fun hs => ?_, fun hs => ?_⟩
    · rcases hst with hst | hst <;> rw [hst] at hs <;> simp at hs
    · rcases hst with hst | hst <;> rw [hst] at hs <;> cases hs
    · rcases hst with hst | hst <;> rw [hst] at hs <;> cases hs
  · refine ⟨hmax, fun hs => ?_, fun _ => ⟨hout, hatt.ge, .inl hatt⟩, fun hs => ?_, fun hs => ?_⟩
    · rw [hst] at hs
      simp at hs
    · rw [hst] at hs
      cases hs
    · rw [hst] at hs
      cases hs

theorem Fated.enter_running (h : Fated res limit node)
    (hst : node.status = .QUEUED ∨ node.status = .RUNNING) :
    Fated res limit (node.enter .RUNNING now) := by
  refine ⟨h.max_attempts, fun hs => ?_, fun _ => h.busy hst, fun hs => ?_, fun hs => ?_⟩
  · rcases hs with hs | hs <;> cases hs
  · cases hs
  · cases hs

/-- A success is that of the first attempt. -/
theorem Fated.succeed (h : Fated res limit node) (hrun : node.status = .RUNNING)
    (hres : res.success = true) : Fated res limit (node.succeed res.output now) := by
  obtain ⟨-, -, hatt⟩ := h.busy (.inr hrun)
  have hone : node.attempt = 1 := hatt.resolve_right fun hf => by
    rw [hres] at hf
    cases hf.1
  refine ⟨h.max_attempts, fun hs => ?_, fun hs => ?_, fun _ => ⟨hone, hres, rfl⟩, fun hs => ?_⟩
  · rcases hs with hs | hs <;> cases hs
  · rcases hs with hs | hs <;> cases hs
  · cases hs

theorem Fated.retry {error : Option String} (h : Fated res limit node)
    (hrun : node.status = .RUNNING) (hres : res.success = false)
    (hleft : node.attempt < node.max_attempts) : Fated res limit (node.retry error now) := by
  obtain ⟨hout, hge, -⟩ := h.busy (.inr hrun)
  have hlt : node.attempt < limit := h.max_attempts ▸ hleft
  refine ⟨h.max_attempts, fun hs => ?_, fun _ => ⟨hout, ?_, .inr ⟨hres, ?_⟩⟩, fun hs => ?_,
    fun hs => ?_⟩
  · rcases hs with hs | hs <;> cases hs
  · exact Nat.le_add_left 1 node.attempt
  · exact hlt
  · cases hs
  · cases hs

/-- A node dies in its last attempt. -/
theorem Fated.dead_letter {error : Option String} (h : Fated res limit node)
    (hrun : node.status = .RUNNING) (hres : res.success = false)
    (hleft : ¬ node.attempt < node.max_attempts) :
    Fated res limit (node.dead_letter error now) := by
  obtain ⟨hout, hge, hatt⟩ := h.busy (.inr hrun)
  have hlast : node.attempt = max 1 limit := by
    have hmax := h.max_attempts
    rcases hatt with hatt | ⟨-, hatt⟩ <;> omega
  refine ⟨h.max_attempts, fun hs => ?_, fun hs => ?_, fun hs => ?_,
    fun _ => ⟨hlast, hres, hout⟩⟩
  · rcases hs with hs | hs <;> cases hs
  · rcases hs with hs | hs <;> cases hs
  · cases hs

end Fated

/-! ## The fate of an execution -/

/-- `p` is a condition that has succeeded without selecting `n`. -/
def Unselected (d : WorkflowDefinition) (nodes : Table String NodeExecution) (p n : String) :
    Prop :=
  (nodes.row p).status = .SUCCEEDED ∧ ∃ node_def output targets,
    d.node_def_by_id p = some node_def ∧ (nodes.row p).output_payload = some output ∧
      branch_targets d node_def p output = .ok targets ∧ n ∈ targets

structure FateInv (F : Executors) (d : WorkflowDefinition) (rows : ExecutionRows) : Prop where
  row : ∀ n node_def, d.node_def_by_id n = some node_def →
    Fated (expected F d rows n node_def) (initial_node d n).max_attempts (rows.nodes.row n)
  /-- Nothing is skipped without a reason. -/
  skipped : ∀ n, (rows.nodes.row n).status = .SKIPPED →
    ∃ p ∈ d.parent_ids n, (rows.nodes.row p).status = .SKIPPED ∨ Unselected d rows.nodes p n
  /-- What is not selected is skipped. -/
  unselected : ∀ p n, Unselected d rows.nodes p n → (rows.nodes.row n).status = .SKIPPED

section FateInv

variable {F : Executors} {d : WorkflowDefinition} {rows rows' : ExecutionRows}

theorem upstream_outputs_congr {nodes nodes' : Table String NodeExecution} {ps : List String}
    (hkeys : nodes'.keys = nodes.keys)
    (hout : ∀ p ∈ ps, (nodes'.row p).output_payload = (nodes.row p).output_payload) :
    upstream_outputs nodes' ps = upstream_outputs nodes ps := by
  unfold upstream_outputs
  rw [hkeys]
  refine List.map_congr_left fun p hp => ?_
  rw [hout p (List.mem_eraseDups.mp (List.mem_of_mem_filter hp))]

theorem expected_congr {n : String} {node_def : Node}
    (hin : rows'.execution.input_payload = rows.execution.input_payload)
    (hkeys : rows'.nodes.keys = rows.nodes.keys)
    (hout : ∀ p ∈ d.parent_ids n,
      (rows'.nodes.row p).output_payload = (rows.nodes.row p).output_payload) :
    expected F d rows' n node_def = expected F d rows n node_def := by
  unfold expected
  rw [hin, upstream_outputs_congr hkeys hout]

/-- Only status and output of the condition matter. -/
theorem Unselected.congr {nodes nodes' : Table String NodeExecution} {p n : String}
    (h : Unselected d nodes p n) (hst : (nodes'.row p).status = (nodes.row p).status)
    (hout : (nodes'.row p).output_payload = (nodes.row p).output_payload) :
    Unselected d nodes' p n := by
  obtain ⟨hs, node_def, output, targets, hdef, ho, hT, hn⟩ := h
  exact ⟨hst.trans hs, node_def, output, targets, hdef, hout.trans ho, hT, hn⟩

/-- A step that leaves statuses, attempts and outputs alone. -/
theorem FateInv.quiet (h : FateInv F d rows) (hexec : rows'.execution = rows.execution)
    (hkeys : rows'.nodes.keys = rows.nodes.keys)
    (hrow : ∀ n, ∃ id, rows'.nodes.row n = { rows.nodes.row n with redis_message_id := id }) :
    FateInv F d rows' := by
  have hst : ∀ n, (rows'.nodes.row n).status = (rows.nodes.row n).status := fun n => by
    obtain ⟨id, hn⟩ := hrow n
    rw [hn]
  have hout : ∀ n, (rows'.nodes.row n).output_payload = (rows.nodes.row n).output_payload :=
    fun n => by
      obtain ⟨id, hn⟩ := hrow n
      rw [hn]
  refine ⟨fun n node_def hdef => ?_, fun n hn => ?_, fun p n hun => ?_⟩
  · rw [expected_congr (by rw [hexec]) hkeys fun p _ => hout p]
    obtain ⟨id, hn⟩ := hrow n
    rw [hn]
    exact (h.row n node_def hdef).congr rfl rfl rfl rfl
  · obtain ⟨p, hp, hreason⟩ := h.skipped n (hst n ▸ hn)
    refine ⟨p, hp, hreason.imp (fun hs => ?_) fun hun => hun.congr (hst p) (hout p)⟩
    rwa [hst]
  · rw [hst]
    exact h.unselected p n (hun.congr (hst p).symm (hout p).symm)

/-- A step that moves one node between statuses other than SUCCEEDED and SKIPPED. The
outputs stay, so what is expected of the other nodes stays; and whether a node is skipped
or a condition has selected depends on SUCCEEDED and SKIPPED only. -/
theorem FateInv.set {m : String} {node : NodeExecution} (h : FateInv F d rows)
    (hin : rows'.execution.input_payload = rows.execution.input_payload)
    (hnodes : rows'.nodes = rows.nodes.set m node)
    (hold : (rows.nodes.row m).status ≠ .SUCCEEDED ∧ (rows.nodes.row m).status ≠ .SKIPPED)
    (hnew : node.status ≠ .SUCCEEDED ∧ node.status ≠ .SKIPPED)
    (hout : node.output_payload = (rows.nodes.row m).output_payload)
    (hfated : ∀ node_def, d.node_def_by_id m = some node_def →
      Fated (expected F d rows m node_def) (initial_node d m).max_attempts node) :
    FateInv F d rows' := by
  have houts : ∀ p, (rows'.nodes.row p).output_payload = (rows.nodes.row p).output_payload := by
    intro p
    rw [hnodes]
    by_cases hp : p = m
    · rw [hp, Table.row_set_self]
      exact hout
    · rw [Table.row_set_of_ne _ _ hp]
  -- rows in the two statuses are not touched
  have hback : ∀ p, (rows'.nodes.row p).status = .SUCCEEDED ∨
      (rows'.nodes.row p).status = .SKIPPED → rows'.nodes.row p = rows.nodes.row p := by
    intro p hp
    rw [hnodes] at hp ⊢
    refine Table.row_set_of_ne _ _ ?_
    rintro rfl
    rw [Table.row_set_self] at hp
    exact hp.elim hnew.1 hnew.2
  have hkept : ∀ p, (rows.nodes.row p).status = .SUCCEEDED ∨
      (rows.nodes.row p).status = .SKIPPED → rows'.nodes.row p = rows.nodes.row p := by
    intro p hp
    rw [hnodes]
    refine Table.row_set_of_ne _ _ ?_
    rintro rfl
    exact hp.elim hold.1 hold.2
  refine ⟨fun n node_def hdef => ?_, fun n hn => ?_, fun p n hun => ?_⟩
  · rw [expected_congr hin (by rw [hnodes]; rfl) fun p _ => houts p]
    by_cases hnm : n = m
    · subst hnm
      rw [hnodes, Table.row_set_self]
      exact hfated node_def hdef
    · rw [hnodes, Table.row_set_of_ne _ _ hnm]
      exact h.row n node_def hdef
  · obtain ⟨p, hp, hreason⟩ := h.skipped n (by rwa [← hback n (.inr hn)])
    refine ⟨p, hp, hreason.imp (fun hs => ?_) fun hun => ?_⟩
    · rwa [hkept p (.inr hs)]
    · exact hun.congr (by rw [hkept p (.inl hun.1)]) (houts p)
  · have hsame := hback p (.inl hun.1)
    have hskip := h.unselected p n (hun.congr (by rw [hsame]) (by rw [hsame]))
    rwa [hkept n (.inr hskip)]

/-! ### A success -/

section Succeed

variable {c : String} {node_def : Node} {result : ExecutorResult} {targets pubs : List String}
  {now : ℕ}

/-- No output but that of the node itself changes. -/
theorem output_of_succeed
    (heff : DownstreamEffect d c targets now
      (rows.nodes.set c ((rows.nodes.row c).succeed result.output now)) rows'.nodes pubs)
    {p : String} (hp : p ≠ c) :
    (rows'.nodes.row p).output_payload = (rows.nodes.row p).output_payload := by
  have hcases := heff.cases p
  rw [Table.row_set_of_ne _ _ hp] at hcases
  rcases hcases with ⟨-, -, hrow⟩ | ⟨-, -, -, hrow⟩ | ⟨-, -, hrow⟩
  · rw [hrow]
    rfl
  · rw [hrow]
    rfl
  · rw [hrow]

/-- The targets that a condition does not select are its children. -/
theorem mem_child_ids_of_target (hbranch : BranchesAreChildren d)
    (hdef : d.node_def_by_id c = some node_def)
    (hT : branch_targets d node_def c result.output = .ok targets) {n : String}
    (hn : n ∈ targets) : n ∈ d.child_ids c := by
  obtain ⟨targets', hT', hsub⟩ := branch_targets_ok hbranch hdef result.output
  rw [hT, Except.ok.injEq] at hT'
  exact hsub n (hT' ▸ hn)

/-- The node takes its result, and a child that is queued begins its first attempt. The
one row whose expected result could change is that of a child of the node, because its
upstream outputs do. But a child had no work before, as it has a parent that was not done;
and a node without work satisfies [`Fated`] for every result. -/
theorem FateInv.row_succeed (h : FateInv F d rows) (hd : WellFormed d)
    (hdag : DagInv d rows.nodes) (hkeys' : rows'.nodes.keys = rows.nodes.keys)
    (hin : rows'.execution.input_payload = rows.execution.input_payload)
    (hdef : d.node_def_by_id c = some node_def)
    (hrun : (rows.nodes.row c).status = .RUNNING) (hres : result.success = true)
    (hexp : result = expected F d rows c node_def)
    (heff : DownstreamEffect d c targets now
      (rows.nodes.set c ((rows.nodes.row c).succeed result.output now)) rows'.nodes pubs)
    {n : String} {node_def' : Node} (hdef' : d.node_def_by_id n = some node_def') :
    Fated (expected F d rows' n node_def') (initial_node d n).max_attempts
      (rows'.nodes.row n) := by
  have hfated := h.row n node_def' hdef'
  have hexpected : c ∉ d.parent_ids n →
      expected F d rows' n node_def' = expected F d rows n node_def' := fun hnot =>
    expected_congr hin hkeys' fun p hp => output_of_succeed heff fun heq => hnot (heq ▸ hp)
  by_cases hnc : n = c
  · subst hnc
    rw [hdef, Option.some.injEq] at hdef'
    subst hdef'
    rw [hexpected (hd.not_self_parent n), heff.row_self rfl, hexp]
    exact hfated.succeed hrun (hexp ▸ hres)
  · by_cases hst : (rows.nodes.row n).status = .PENDING
    · obtain ⟨hatt, hout⟩ := hfated.waiting (.inl hst)
      have hcases := heff.cases n
      rw [Table.row_set_of_ne _ _ hnc] at hcases
      rcases hcases with ⟨-, -, hrow⟩ | ⟨-, -, -, hrow⟩ | ⟨-, -, hrow⟩
      · rw [hrow]
        exact fated_of_waiting hfated.max_attempts (.inl ⟨.inr rfl, hatt⟩) hout
      · rw [hrow]
        refine fated_of_waiting hfated.max_attempts (.inr ⟨rfl, ?_⟩) hout
        rw [NodeExecution.enter_queued_attempt, hatt]
      · rw [hrow]
        exact fated_of_waiting hfated.max_attempts (.inl ⟨.inl hst, hatt⟩) hout
    · rw [heff.row_of_ne hnc hst]
      by_cases hpar : c ∈ d.parent_ids n
      · -- it has been skipped
        have hskip := (hdag.not_active_of_parent hpar (by simp [hrun])).resolve_left hst
        obtain ⟨hatt, hout⟩ := hfated.waiting (.inr hskip)
        exact fated_of_waiting hfated.max_attempts (.inl ⟨.inr hskip, hatt⟩) hout
      · rw [hexpected hpar]
        exact hfated

/-- A row that is skipped now follows a skipped one, or was not selected. The cascade goes
along edges from the unselected target, so behind a node that it skips there is another
one, or the condition. -/
theorem FateInv.skipped_succeed (h : FateInv F d rows) (hbranch : BranchesAreChildren d)
    (hdef : d.node_def_by_id c = some node_def) (hrun : (rows.nodes.row c).status = .RUNNING)
    (hT : branch_targets d node_def c result.output = .ok targets)
    (heff : DownstreamEffect d c targets now
      (rows.nodes.set c ((rows.nodes.row c).succeed result.output now)) rows'.nodes pubs)
    {n : String} (hn : (rows'.nodes.row n).status = .SKIPPED) :
    ∃ p ∈ d.parent_ids n,
      (rows'.nodes.row p).status = .SKIPPED ∨ Unselected d rows'.nodes p n := by
  have hc := heff.row_self rfl
  rcases heff.cases n with ⟨hskip, -, -⟩ | ⟨-, -, -, hrow⟩ | ⟨-, -, hrow⟩
  · cases hskip with
    | base htarget hopen =>
        -- `n` is an unselected target of `c`
        have hchild := mem_child_ids_of_target hbranch hdef hT htarget
        refine ⟨c, WorkflowDefinition.mem_child_ids_iff_mem_parent_ids.mp hchild, .inr ?_⟩
        refine ⟨?_, node_def, result.output, targets, hdef, ?_, hT, htarget⟩
        · rw [hc]
          rfl
        · rw [hc]
          rfl
    | @step x _ hx hchild hopen =>
        refine ⟨x, WorkflowDefinition.mem_child_ids_iff_mem_parent_ids.mp hchild, .inl ?_⟩
        rw [heff.skipped x hx, NodeExecution.enter_status]
  · rw [hrow, NodeExecution.enter_status] at hn
    cases hn
  · have hnc : n ≠ c := by
      rintro rfl
      rw [hc] at hn
      cases hn
    rw [hrow, Table.row_set_of_ne _ _ hnc] at hn
    obtain ⟨p, hp, hreason⟩ := h.skipped n hn
    refine ⟨p, hp, hreason.imp (fun hs => ?_) fun hun => ?_⟩
    · rwa [heff.row_of_settled hrun (.inr hs)]
    · have hrow := heff.row_of_settled hrun (.inl hun.1)
      exact hun.congr (by rw [hrow]) (by rw [hrow])

/-- What the node, or a condition before it, does not select is skipped. For the node
itself this is what the commit has done. For another condition it was so before, and a
SKIPPED row stays. -/
theorem FateInv.unselected_succeed (h : FateInv F d rows) (hd : WellFormed d)
    (hdag : DagInv d rows.nodes) (hkeys : rows.nodes.keys = d.node_ids)
    (hbranch : BranchesAreChildren d) (hdef : d.node_def_by_id c = some node_def)
    (hrun : (rows.nodes.row c).status = .RUNNING)
    (hT : branch_targets d node_def c result.output = .ok targets)
    (heff : DownstreamEffect d c targets now
      (rows.nodes.set c ((rows.nodes.row c).succeed result.output now)) rows'.nodes pubs)
    {p n : String} (hun : Unselected d rows'.nodes p n) :
    (rows'.nodes.row n).status = .SKIPPED := by
  by_cases hpc : p = c
  · -- `c` itself: its unselected children were PENDING or skipped already
    subst hpc
    obtain ⟨-, node_def', output, targets', hdef', hout, hT', hn⟩ := hun
    rw [hdef, Option.some.injEq] at hdef'
    subst hdef'
    rw [heff.row_self rfl] at hout
    obtain rfl : result.output = output := Option.some.inj hout
    rw [hT, Except.ok.injEq] at hT'
    subst hT'
    have hchild := mem_child_ids_of_target hbranch hdef hT hn
    have hpar := WorkflowDefinition.mem_child_ids_iff_mem_parent_ids.mp hchild
    have hnc : n ≠ p := by
      rintro rfl
      exact hd.not_self_parent n hpar
    rcases hdag.not_active_of_parent hpar (by simp [hrun]) with hst | hst
    · have hopen : Open (rows.nodes.set p ((rows.nodes.row p).succeed result.output now)) n := by
        refine ⟨?_, by rw [Table.row_set_of_ne _ _ hnc, hst]⟩
        rw [Table.keys_set, hkeys]
        exact hd.child_mem hchild
      rw [heff.skipped n (.base hn hopen), NodeExecution.enter_status]
    · rw [heff.row_of_settled hrun (.inr hst), hst]
  · have hst : (rows.nodes.row p).status = .SUCCEEDED := by
      have hsucceeded := (heff.succeeded_iff p).mp hun.1
      rwa [Table.row_set_of_ne _ _ hpc] at hsucceeded
    have hrow := heff.row_of_settled hrun (.inl hst)
    have hskip := h.unselected p n (hun.congr (by rw [hrow]) (by rw [hrow]))
    rwa [heff.row_of_settled hrun (.inr hskip)]

/-- **A success.** The node itself takes its result; a child is queued for its first
attempt, or skipped, or left alone, and no other row depends on the new output. The three
fields of the invariant have a lemma each. -/
theorem FateInv.succeed (h : FateInv F d rows) (hd : WellFormed d)
    (hdag : DagInv d rows.nodes) (hkeys : rows.nodes.keys = d.node_ids)
    (hkeys' : rows'.nodes.keys = rows.nodes.keys)
    (hin : rows'.execution.input_payload = rows.execution.input_payload)
    (hbranch : BranchesAreChildren d) (hdef : d.node_def_by_id c = some node_def)
    (hrun : (rows.nodes.row c).status = .RUNNING) (hres : result.success = true)
    (hexp : result = expected F d rows c node_def)
    (hT : branch_targets d node_def c result.output = .ok targets)
    (heff : DownstreamEffect d c targets now
      (rows.nodes.set c ((rows.nodes.row c).succeed result.output now)) rows'.nodes pubs) :
    FateInv F d rows' where
  row := fun _ _ hdef' => h.row_succeed hd hdag hkeys' hin hdef hrun hres hexp heff hdef'
  skipped := fun _ hn => h.skipped_succeed hbranch hdef hrun hT heff hn
  unselected := fun _ _ hun => h.unselected_succeed hd hdag hkeys hbranch hdef hrun hT heff hun

end Succeed

/-- An execution fails through a dead-lettered node, which stays dead while
nobody calls `retry_node`; and one without nodes never ends. -/
structure FailInv (d : WorkflowDefinition) (rows : ExecutionRows) : Prop where
  failed : rows.execution.status = .FAILED →
    ∃ n ∈ d.node_ids, (rows.nodes.row n).status = .DEAD_LETTERED
  empty : d.node_ids = [] → rows.execution.status = .RUNNING

/-- A step that leaves the execution row and dead nodes alone. -/
theorem FailInv.stays (h : FailInv d rows) (hexec : rows'.execution = rows.execution)
    (hdead : ∀ n, (rows.nodes.row n).status = .DEAD_LETTERED →
      (rows'.nodes.row n).status = .DEAD_LETTERED) : FailInv d rows' := by
  refine ⟨fun hf => ?_, fun hnil => hexec ▸ h.empty hnil⟩
  obtain ⟨n, hn, hst⟩ := h.failed (hexec ▸ hf)
  exact ⟨n, hn, hdead n hst⟩

end FateInv

/-! ## Steps of the workers -/

/-- The actions of `start_execution` and of workers that are not disturbed. -/
def Action.worker : Action → Bool
  | .start .. => true
  | .claim .. => true
  | .invoke _ => true
  | .complete .. => true
  | .publish _ => true
  | .finish _ => true
  | .flush _ => true
  | .ack _ => true
  | .reply _ => true
  | _ => false

section Step

variable {env : Env} {s : Sys} {a : Action} {e : ℕ} {F : Executors} {d : WorkflowDefinition}
  {rows rows' : ExecutionRows}

/-- **One step of a worker keeps the fates**, if a completion comes with the expected
result. A worker either starts a node, which is not yet to decide anything, or completes
one. A failure with attempts left sends the node back with the same expectation, and the
last one buries it; a success is [`FateInv.succeed`]. Manual retries are not steps of a
worker, and they could not be allowed: a retried node may succeed where it was fated to
fail. -/
theorem RowsStep.fateInv (h : RowsStep s a e d rows rows') (ha : a.worker = true)
    (hd : rows.Of env d) (hdag : DagInv d rows.nodes) (hbranch : BranchesAreChildren d)
    (hexp : ∀ t result m context execution node_def, a = .complete t result →
      (s.tasks t).phase = .invoked m context execution → context.execution_id = e →
      d.node_def_by_id context.node_id = some node_def →
      result = expected F d rows context.node_id node_def)
    (hinv : FateInv F d rows) : FateInv F d rows' := by
  cases h with
  | quiet hexec hkeys hrow hdead => exact hinv.quiet hexec hkeys hrow
  | run n hkey hst =>
      refine hinv.set rfl rfl ?_ (by simp) (NodeExecution.enter_output_payload ..)
        fun node_def hdef => (hinv.row n node_def hdef).enter_running hst
      rcases hst with hst | hst <;> simp [hst]
  | retry n hkey hst hretry =>
      -- no manual retries among these actions
      obtain ⟨t, owner, rfl⟩ := hretry
      cases ha
  | @complete logs t m result context execution node_def session pubs hcomplete hphase he hdef
      hframe hends hdone =>
      -- the result is the one that was expected, so the row meets the fate it should
      have hres := hexp t result m context execution node_def hcomplete hphase he hdef
      have hfated := hinv.row context.node_id node_def hdef
      cases hdone with
      | succeed targets _ hkey hrun hsuccess hT heff hdead hexec =>
          exact hinv.succeed hd.wellFormed hdag hd.2.2 hframe.keys rfl hbranch hdef hrun hsuccess
            hres hT heff
      | requeue hkey hrun hfail hleft hnodes hdead hexec =>
          refine hinv.set rfl hnodes (by simp [hrun]) (by simp [NodeExecution.retry]) ?_
            fun node_def' hdef' => ?_
          · rfl
          · rw [hdef, Option.some.injEq] at hdef'
            subst hdef'
            exact hfated.retry hrun (hres ▸ hfail) hleft
      | bury hkey hrun hfail hleft hnodes hdead hexec =>
          refine hinv.set rfl hnodes (by simp [hrun]) (by simp [NodeExecution.dead_letter]) ?_
            fun node_def' hdef' => ?_
          · rfl
          · rw [hdef, Option.some.injEq] at hdef'
            subst hdef'
            exact hfated.dead_letter hrun (hres ▸ hfail) hleft

/-- One step keeps a dead node in a FAILED execution. A dead node stays as it is, for only
`retry_node` moves one, which is no step of a worker; and a commit that turns the
execution FAILED has buried its own node or found one dead. -/
theorem RowsStep.failInv (h : RowsStep s a e d rows rows') (ha : a.worker = true)
    (hd : rows.Of env d) (hdag' : DagInv d rows'.nodes) (hinv : FailInv d rows) :
    FailInv d rows' := by
  -- a node that is moved is not dead
  have other : ∀ {m : String} {node : NodeExecution}, (rows.nodes.row m).status ≠ .DEAD_LETTERED →
      ∀ n, (rows.nodes.row n).status = .DEAD_LETTERED →
        (rows.nodes.set m node).row n = rows.nodes.row n := by
    intro m node hm n hn
    refine Table.row_set_of_ne _ _ ?_
    rintro rfl
    exact hm hn
  cases h with
  | quiet hexec hkeys hrow hdead =>
      refine hinv.stays hexec fun n hn => ?_
      obtain ⟨id, hrow⟩ := hrow n
      rwa [hrow]
  | run m hkey hst =>
      refine hinv.stays rfl fun n hn => ?_
      rwa [other (by rcases hst with hst | hst <;> simp [hst]) n hn]
  | retry m hkey hst hretry =>
      obtain ⟨t, owner, rfl⟩ := hretry
      cases ha
  | @complete logs t m result context execution node_def session pubs hcomplete hphase he hdef
      hframe hends hdone =>
      have hkeys : session.nodes.keys = d.node_ids := hframe.keys.trans hd.2.2
      have hne : context.node_id ∈ rows.nodes.keys → d.node_ids ≠ [] := fun hkey hnil => by
        rw [hd.2.2, hnil] at hkey
        cases hkey
      cases hdone with
      | succeed targets _ hkey hrun hsuccess hT heff hdead hexec =>
          have hsame : ∀ n, (rows.nodes.row n).status = .DEAD_LETTERED →
              session.nodes.row n = rows.nodes.row n := fun n hn => by
            have hset := @other context.node_id
              ((rows.nodes.row context.node_id).succeed result.output s.clock) (by simp [hrun]) n hn
            rw [heff.row_of_not_pending (by rw [hset, hn]; simp), hset]
          rcases finalised_cases session.nodes execution s.clock with
            ⟨hfin, -⟩ | ⟨hr, ⟨⟨n, hn, hst⟩, -⟩ | ⟨-, hfin⟩⟩
          · refine hinv.stays ?_ fun n hn => by rwa [hsame n hn]
            simp only [hexec, hfin, Execution.flush_untouched]
          · refine ⟨fun _ => ⟨n, hkeys ▸ hn, ?_⟩, fun hnil => absurd hnil (hne hkey)⟩
            exact hst.resolve_left (hdag'.settled n).1
          · refine ⟨fun hf => ?_, fun hnil => absurd hnil (hne hkey)⟩
            simp only [hexec, hfin] at hf
            rw [flush_enter_status hr (by simp)] at hf
            cases hf
      | requeue hkey hrun hfail hleft hnodes hdead hexec =>
          refine hinv.stays ?_ fun n hn => ?_
          · simp only [hexec, Execution.flush_untouched]
          · rwa [hnodes, other (by simp [hrun]) n hn]
      | bury hkey hrun hfail hleft hnodes hdead hexec =>
          refine ⟨fun _ => ⟨context.node_id, hd.2.2 ▸ hkey, ?_⟩, fun hnil => absurd hnil (hne hkey)⟩
          rw [hnodes, Table.row_set_self]
          rfl

/-- A new execution: its roots are in their first attempt. -/
theorem Started.fateInv (h : Started d rows) : FateInv F d rows := by
  refine ⟨fun n node_def hdef => ?_, fun n hn => ?_, fun p n hun => ?_⟩
  · by_cases hroot : n ∈ d.node_ids ∧ d.parent_ids n = []
    · obtain ⟨now, hrow⟩ := h.root n hroot.1 hroot.2
      rw [hrow]
      refine fated_of_waiting rfl (.inr ⟨rfl, ?_⟩) (initial_node_output ..)
      rw [NodeExecution.enter_queued_attempt, initial_node_attempt]
    · rw [h.other n hroot]
      exact fated_of_waiting rfl (.inl ⟨.inl (initial_node_status ..), initial_node_attempt ..⟩)
        (initial_node_output ..)
  · rw [h.node_status] at hn
    split at hn <;> cases hn
  · have hs := hun.1
    rw [h.node_status] at hs
    split at hs <;> cases hs

theorem Started.failInv (h : Started d rows) : FailInv d rows := by
  refine ⟨fun hf => ?_, fun _ => h.status⟩
  rw [h.status] at hf
  cases hf

end Step

end EventFlow
