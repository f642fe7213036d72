/-
What a workflow means, and that the workers compute it.

[`verdict`] says what becomes of a node, given what becomes of its parents: it is
skipped, if a parent is or if a parent is a condition that has chosen otherwise;
it waits for ever, if a parent has not succeeded; and otherwise its executor
decides. [`evaluate`] computes the verdicts in one pass along the order that
`validate_workflow` returns. There are no workers here, no queue, no rows and no
attempts.

[`run_evaluates`] is the refinement: whatever the order in which messages are
delivered and workers act, a complete run leaves the rows that the pass describes.
Rows at rest satisfy the rule of [`verdict`] at every node ([`AtRest.verdict_eq`]),
and there is only one assignment that does (`Library/DagEval.lean`).
-/
import EventFlow.Confluence
import EventFlow.Downstream
import EventFlow.Library.DagEval

set_option autoImplicit false

namespace EventFlow

open Transition

/-! ## The meaning of a definition -/

/-- What becomes of a node. -/
inductive Verdict where
  | skipped
  /-- A parent does not succeed, so that the node is never started. -/
  | waiting
  | succeeded (output : JsonObject)
  | dead

namespace Verdict

def is_skipped : Verdict → Bool
  | .skipped => true
  | _ => false

def is_dead : Verdict → Bool
  | .dead => true
  | _ => false

/-- The output of a node that succeeds. -/
def output : Verdict → Option JsonObject
  | .succeeded output => some output
  | _ => none

end Verdict

instance (node_def : Node) (output : JsonObject) (n : String) :
    Decidable (UnselectedPath node_def output n) :=
  inferInstanceAs (Decidable (_ ∧ _))

/-- `p` is a condition that chooses another path than `n`. -/
def rejects (d : WorkflowDefinition) (p n : String) (verdict : Verdict) : Bool :=
  match d.node_def_by_id p, verdict.output with
  | some node_def, some output => decide (UnselectedPath node_def output n)
  | _, _ => false

/-- What the answer of the executor makes of a node. -/
def Verdict.of_result (result : ExecutorResult) : Verdict :=
  if result.success then .succeeded result.output else .dead

/-- **What becomes of a node**, given what becomes of its parents. -/
def verdict (F : Executors) (d : WorkflowDefinition) (input : Option JsonObject) (n : String)
    (verdicts : String → Verdict) : Verdict :=
  match d.node_def_by_id n with
  | none => .waiting
  | some node_def =>
    if ∃ p ∈ d.parent_ids n, (verdicts p).is_skipped ∨ rejects d p n (verdicts p) then .skipped
    else if ∀ p ∈ d.parent_ids n, (verdicts p).output.isSome then
      .of_result (F node_def.type node_def.config (input.getD [])
        ((d.parent_ids n).eraseDups.map fun p => (p, Json.of_payload (verdicts p).output)))
    else .waiting

/-- The verdicts, in one pass along `order`. -/
def evaluate (F : Executors) (d : WorkflowDefinition) (input : Option JsonObject)
    (order : List String) : String → Verdict :=
  DagEval.evaluate (verdict F d input) order fun _ => .waiting

/-- The status of an execution whose nodes end so. -/
def overall (d : WorkflowDefinition) (verdicts : String → Verdict) : ExecutionStatus :=
  -- nothing ends an execution without nodes
  if d.node_ids = [] then .RUNNING
  else if d.node_ids.any fun n => (verdicts n).is_dead then .FAILED
  else .SUCCEEDED

/-- The row of a node that ends so, where `limit` is its `max_attempts`. -/
def Verdict.Describes (limit : ℕ) : Verdict → NodeExecution → Prop
  | .skipped, node => node.status = .SKIPPED ∧ node.attempt = 0 ∧ node.output_payload = none
  | .waiting, node => node.status = .PENDING ∧ node.attempt = 0 ∧ node.output_payload = none
  | .succeeded output, node =>
    node.status = .SUCCEEDED ∧ node.attempt = 1 ∧ node.output_payload = some output
  | .dead, node =>
    node.status = .DEAD_LETTERED ∧ node.attempt = max 1 limit ∧ node.output_payload = none

/-! ## Rows at rest -/

/-- The verdict that a row at rest stands for. -/
def NodeExecution.verdict (node : NodeExecution) : Verdict :=
  match node.status with
  | .SKIPPED => .skipped
  | .SUCCEEDED => .succeeded (node.output_payload.getD [])
  | .DEAD_LETTERED => .dead
  | _ => .waiting

section AtRest

variable {F : Executors} {d : WorkflowDefinition} {rows : ExecutionRows} {n p : String}

theorem verdict_local (F : Executors) (d : WorkflowDefinition) (input : Option JsonObject) :
    DagEval.Local d.parent_ids (verdict F d input) := by
  intro n f g hsame
  unfold verdict
  split
  · rfl
  · have hskip : (∃ p ∈ d.parent_ids n, (f p).is_skipped ∨ rejects d p n (f p)) ↔
        ∃ p ∈ d.parent_ids n, (g p).is_skipped ∨ rejects d p n (g p) :=
      exists_congr fun p => and_congr_right fun hp => by rw [hsame p hp]
    have hready : (∀ p ∈ d.parent_ids n, (f p).output.isSome) ↔
        ∀ p ∈ d.parent_ids n, (g p).output.isSome :=
      forall₂_congr fun p hp => by rw [hsame p hp]
    have hupstream : (d.parent_ids n).eraseDups.map (fun p => (p, Json.of_payload (f p).output))
        = (d.parent_ids n).eraseDups.map fun p => (p, Json.of_payload (g p).output) :=
      List.map_congr_left fun p hp => by rw [hsame p (List.mem_eraseDups.mp hp)]
    simp only [hskip, hready, hupstream]

/-- The outcome of a row is described by its verdict. -/
theorem Outcome.describes {res : ExecutorResult} {limit : ℕ} {ready : Prop} {node : NodeExecution}
    (h : Outcome res limit ready node) : node.verdict.Describes limit node := by
  unfold NodeExecution.verdict
  cases h with
  | skipped hst hatt hout =>
      rw [hst]
      exact ⟨hst, hatt, hout⟩
  | pending hwait hst hatt hout =>
      rw [hst]
      exact ⟨hst, hatt, hout⟩
  | succeeded hready hres hst hatt hout =>
      rw [hst, hout]
      exact ⟨hst, hatt, hout⟩
  | dead hready hres hst hatt hout =>
      rw [hst]
      exact ⟨hst, hatt, hout⟩

/-- A row at rest that has succeeded, and no other, has an output. -/
theorem AtRest.output_verdict (h : AtRest F d rows) (hp : p ∈ d.node_ids) :
    (rows.nodes.row p).verdict.output = (rows.nodes.row p).output_payload ∧
      ((rows.nodes.row p).verdict.output.isSome = true ↔
        (rows.nodes.row p).status = .SUCCEEDED) := by
  obtain ⟨node_def, hdef⟩ := WorkflowDefinition.exists_node_def_by_id hp
  unfold NodeExecution.verdict
  cases h.outcome hdef hp with
  | skipped hst hatt hout => simp [hst, hout, Verdict.output]
  | pending hwait hst hatt hout => simp [hst, hout, Verdict.output]
  | succeeded hready hres hst hatt hout => simp [hst, hout, Verdict.output]
  | dead hready hres hst hatt hout => simp [hst, hout, Verdict.output]

/-- A condition rejects what it leaves unselected. -/
theorem AtRest.rejects_iff (h : AtRest F d rows) (hd : WellFormed d)
    (hbranch : BranchesAreChildren d) (hp : p ∈ d.parent_ids n) :
    rejects d p n (rows.nodes.row p).verdict = true ↔ Unselected d rows.nodes p n := by
  have hmem := hd.parent_mem hp
  obtain ⟨node_def, hdef⟩ := WorkflowDefinition.exists_node_def_by_id hmem
  obtain ⟨hout, hsome⟩ := h.output_verdict hmem
  have hchild : d.child_ids p ≠ [] :=
    List.ne_nil_of_mem (WorkflowDefinition.mem_child_ids_iff_mem_parent_ids.mpr hp)
  have hpaths : StringPaths node_def := fun htype => by
    obtain ⟨c, c', hc, -, hc', -⟩ := hbranch p node_def hdef htype
    exact ⟨c, c', hc, hc'⟩
  unfold rejects Unselected
  rw [hdef, hout]
  cases hpayload : (rows.nodes.row p).output_payload with
  | none => simp
  | some output =>
      have hst : (rows.nodes.row p).status = .SUCCEEDED := hsome.mp (by rw [hout, hpayload]; rfl)
      obtain ⟨ids, hids, hspec⟩ := skip_ids_spec hpaths output
      have htargets : branch_targets d node_def p output = .ok ids := by
        rw [branch_targets, if_neg hchild, hids]
      simp only [decide_eq_true_eq]
      rw [← hspec n]
      constructor
      · exact fun hn => ⟨hst, node_def, output, ids, rfl, rfl, htargets, hn⟩
      · rintro ⟨-, node_def', output', ids', hdef', hout', htargets', hn⟩
        cases hdef'
        cases hout'
        rw [htargets, Except.ok.injEq] at htargets'
        exact htargets' ▸ hn

/-- Skipped are the nodes that have a reason to be. -/
theorem AtRest.skipped_iff (h : AtRest F d rows) (hd : WellFormed d)
    (hbranch : BranchesAreChildren d) :
    (∃ p ∈ d.parent_ids n, (rows.nodes.row p).verdict.is_skipped = true ∨
        rejects d p n (rows.nodes.row p).verdict = true) ↔
      (rows.nodes.row n).status = .SKIPPED := by
  have hskip : ∀ p, (rows.nodes.row p).verdict.is_skipped = true ↔
      (rows.nodes.row p).status = .SKIPPED := by
    intro p
    unfold NodeExecution.verdict
    cases (rows.nodes.row p).status <;> simp [Verdict.is_skipped]
  constructor
  · rintro ⟨p, hp, hst | hrej⟩
    · exact h.dag.skipped p n (WorkflowDefinition.mem_child_ids_iff_mem_parent_ids.mpr hp)
        ((hskip p).mp hst)
    · exact h.fate.unselected p n ((h.rejects_iff hd hbranch hp).mp hrej)
  · intro hst
    obtain ⟨p, hp, hpst | hun⟩ := h.fate.skipped n hst
    · exact ⟨p, hp, .inl ((hskip p).mpr hpst)⟩
    · exact ⟨p, hp, .inr ((h.rejects_iff hd hbranch hp).mpr hun)⟩

/-- **Rows at rest satisfy the rule.** At rest a node is in one of four cases, by what its
parents came to and what its executor says of their outputs ([`AtRest.outcome`],
[`AtRest.skipped_iff`]); these are the four branches of [`verdict`]. The branches of a
condition have to be its children, since a target elsewhere could be queued by its own
parents before the condition gets to skip it. -/
theorem AtRest.verdict_eq (h : AtRest F d rows) (hd : WellFormed d)
    (hbranch : BranchesAreChildren d) (hn : n ∈ d.node_ids) :
    (rows.nodes.row n).verdict
      = verdict F d rows.execution.input_payload n fun p => (rows.nodes.row p).verdict := by
  obtain ⟨node_def, hdef⟩ := WorkflowDefinition.exists_node_def_by_id hn
  have hready : (∀ p ∈ d.parent_ids n, (rows.nodes.row p).verdict.output.isSome = true) ↔
      ParentsSucceeded d rows.nodes n :=
    forall₂_congr fun p hp => (h.output_verdict (hd.parent_mem hp)).2
  -- the executor is called with the same outputs
  have hres : F node_def.type node_def.config (rows.execution.input_payload.getD [])
      ((d.parent_ids n).eraseDups.map fun p =>
        (p, Json.of_payload (rows.nodes.row p).verdict.output))
        = expected F d rows n node_def := by
    unfold expected upstream_outputs
    rw [List.filter_eq_self.mpr fun p hp => ?_]
    · refine congrArg _ (List.map_congr_left fun p hp => ?_)
      rw [(h.output_verdict (hd.parent_mem (List.mem_eraseDups.mp hp))).1]
    · rw [h.keys]
      exact decide_eq_true (hd.parent_mem (List.mem_eraseDups.mp hp))
  have hskip := h.skipped_iff (n := n) hd hbranch
  unfold verdict
  rw [hdef]
  dsimp only
  rw [hres]
  cases h.outcome hdef hn with
  | skipped hst hatt hout => rw [if_pos (hskip.mpr hst), NodeExecution.verdict, hst]
  | pending hwait hst hatt hout =>
      rw [if_neg (hskip.not.mpr (by simp [hst])), if_neg (hready.not.mpr hwait),
        NodeExecution.verdict, hst]
  | succeeded hsucceeded hsuccess hst hatt hout =>
      rw [if_neg (hskip.not.mpr (by simp [hst])), if_pos (hready.mpr hsucceeded),
        Verdict.of_result, if_pos hsuccess, NodeExecution.verdict, hst, hout]
      rfl
  | dead hsucceeded hsuccess hst hatt hout =>
      rw [if_neg (hskip.not.mpr (by simp [hst])), if_pos (hready.mpr hsucceeded),
        Verdict.of_result, if_neg (by simp [hsuccess]), NodeExecution.verdict, hst]

end AtRest

/-- The order that validation returns puts parents first. -/
theorem ordered_of_validate {d : WorkflowDefinition} {registry : ExecutorRegistry}
    {result : ValidationResult} (h : validate_workflow d registry = .ok result) :
    DagEval.Ordered d.parent_ids result.topological_order ∧
      ∀ n, n ∈ result.topological_order ↔ n ∈ d.node_ids := by
  obtain ⟨⟨hchecked, hacyclic⟩, rfl⟩ := validate_workflow_ok_iff.mp h
  obtain ⟨hperm, hlt⟩ := hchecked.order_spec hacyclic
  refine ⟨DagEval.ordered_of_idxOf fun n _ p hp => ?_, fun n => hperm.mem_iff⟩
  obtain ⟨e, he, rfl, rfl⟩ := WorkflowDefinition.mem_parent_ids.mp hp
  exact hlt e he

/-- **The workers compute what the workflow means.** Take executors whose results depend
on their arguments alone, workers that nothing disturbs, and a definition in which both
branches of each condition are children of it. Whatever the order in which messages are
delivered and workers act, a complete run leaves every node of an execution as one pass
along the order of `validate_workflow` says, and the execution with the status that
follows.

No induction on the run is needed here. At its end the rows satisfy the rule of
[`verdict`] at every node, the pass computes an assignment that satisfies it, and along an
order in which parents come first there is no other ([`DagEval.evaluate_unique`]). -/
theorem run_evaluates (env : Env) (F : Executors) (s : Sys)
    (hrun : Reaches (Sys.step env) (Sys.Deterministic env F) Sys.init s) (hc : s.Complete)
    (e : ℕ) (rows : ExecutionRows) (hrows : s.executions e = some rows) (d : WorkflowDefinition)
    (hd : rows.Of env d) (hbranch : BranchesAreChildren d) (result : ValidationResult)
    (hresult : validate_workflow d env.registry = .ok result) :
    (∀ n ∈ d.node_ids,
      (evaluate F d rows.execution.input_payload result.topological_order n).Describes
        (initial_node d n).max_attempts (rows.nodes.row n)) ∧
    rows.execution.status
      = overall d (evaluate F d rows.execution.input_payload result.topological_order) := by
  have hrest := atRest_of_complete hrun hc hrows hd hbranch
  obtain ⟨hordered, hmem⟩ := ordered_of_validate hresult
  -- the rows are an assignment that satisfies the rule
  have heval : ∀ n ∈ d.node_ids,
      evaluate F d rows.execution.input_payload result.topological_order n
        = (rows.nodes.row n).verdict := fun n hn =>
    DagEval.evaluate_unique (g := fun n => (rows.nodes.row n).verdict) (verdict_local F d _)
      hordered _ (fun m hm => hrest.verdict_eq hd.wellFormed hbranch ((hmem m).mp hm)) n
      ((hmem n).mpr hn)
  have hdead : ∀ n ∈ d.node_ids,
      (evaluate F d rows.execution.input_payload result.topological_order n).is_dead = true ↔
        (rows.nodes.row n).status = .DEAD_LETTERED := by
    intro n hn
    rw [heval n hn]
    unfold NodeExecution.verdict
    cases (rows.nodes.row n).status <;> simp [Verdict.is_dead]
  refine ⟨fun n hn => ?_, ?_⟩
  · obtain ⟨node_def, hdef⟩ := WorkflowDefinition.exists_node_def_by_id hn
    rw [heval n hn]
    exact (hrest.outcome hdef hn).describes
  · unfold overall
    rcases hrest.execution_status with ⟨hnil, hst⟩ | ⟨hne, ⟨n, hn, hdn⟩, hst⟩ | ⟨hne, hnone, hst⟩
    · rw [if_pos hnil, hst]
    · rw [if_neg hne, if_pos (List.any_eq_true.mpr ⟨n, hn, (hdead n hn).mpr hdn⟩), hst]
    · rw [if_neg hne, if_neg, hst]
      rw [List.any_eq_true]
      rintro ⟨n, hn, hdn⟩
      exact hnone ⟨n, hn, (hdead n hn).mp hdn⟩

/-- The condition of `fork` chooses `a`: the pass skips `b`, and so has the run. -/
theorem run_evaluates_fork : ∃ s rows result, fork_state fork_run' = some s ∧
    s.executions 0 = some rows ∧ validate_workflow fork any_registry = .ok result ∧
    (evaluate fork_executors fork none result.topological_order "b").is_skipped = true ∧
    (rows.nodes.row "b").status = .SKIPPED ∧ rows.execution.status = .SUCCEEDED := by
  have hend : (fork_state fork_run').map fork_end = some true := by decide +kernel
  obtain ⟨s, hs, hend⟩ := Option.map_eq_some_iff.mp hend
  obtain ⟨hrun, hc, rows, hrows, hd, hin, -⟩ := fork_state_spec hs hend
  obtain ⟨result, hresult⟩ := hd.2.1
  have hpass : (evaluate fork_executors fork none (kahn_order fork) "b").is_skipped = true ∧
      overall fork (evaluate fork_executors fork none (kahn_order fork)) = .SUCCEEDED := by
    decide +kernel
  obtain ⟨hnodes, hexec⟩ := run_evaluates (env_of fork) fork_executors s hrun hc 0 rows hrows fork
    hd fork_branchesAreChildren result hresult
  obtain ⟨-, rfl⟩ := validate_workflow_ok_iff.mp hresult
  rw [hin] at hnodes hexec
  refine ⟨s, rows, _, hs, hrows, hresult, hpass.1, ?_, hexec.trans hpass.2⟩
  have hb := hnodes "b" (by decide)
  cases hv : evaluate fork_executors fork none (kahn_order fork) "b" with
  | skipped =>
      rw [hv] at hb
      exact hb.1
  | waiting => exact absurd hpass.1 (by rw [hv]; decide)
  | succeeded output => exact absurd hpass.1 (by rw [hv]; simp [Verdict.is_skipped])
  | dead => exact absurd hpass.1 (by rw [hv]; decide)

end EventFlow
