/-
`_queue_downstream_nodes` by itself: every edge list, every map of statuses,
every order in which Python may iterate over the set of branch targets.

The cascade has no visited set and no bound on its turns. [`SkipLoop`] is that
`while` loop without fuel: a derivation of it is a run of the loop that ends.
[`skipLoop_of_cascade_skip`] and [`SkipLoop.cascade_skip`] say that it and the
function of `Runtime.lean` are the same, so that what `RuntimeSpec.lean` proves
about the function is a fact about every run of the loop.

[`DownstreamCall`] is a whole call. The set is iterated in some order, which the
call takes as given; [`queue_downstream_exact`] says that no order keeps the
call from returning, and what it has done when it returns.
-/
import EventFlow.Executors
import EventFlow.RuntimeSpec

set_option autoImplicit false

namespace EventFlow

open Reach

/-! ## The loop -/

/-- `while queue:` from a queue and a session to the session it leaves. -/
inductive SkipLoop (d : WorkflowDefinition) : List String → Session → Session → Prop
  /-- The queue is empty. -/
  | done (s : Session) : SkipLoop d [] s s
  /-- `skip_exec` is `None`. -/
  | missing {x : String} {queue : List String} {s s' : Session} :
      s.nodes.get? x = none → SkipLoop d queue s s' → SkipLoop d (x :: queue) s s'
  /-- `skip_exec` is past PENDING. -/
  | settled {x : String} {queue : List String} {s s' : Session} {skip_exec : NodeExecution} :
      s.nodes.get? x = some skip_exec → skip_exec.status ≠ .PENDING →
      SkipLoop d queue s s' → SkipLoop d (x :: queue) s s'
  /-- `skip_exec` is skipped, and its children are queued. -/
  | skip {x : String} {queue : List String} {s s₁ s' : Session} {skip_exec : NodeExecution} :
      s.nodes.get? x = some skip_exec → skip_exec.status = .PENDING →
      transition_node_status s x .PENDING .SKIPPED = .ok s₁ →
      SkipLoop d (append_new queue (d.child_ids x)) s₁ s' → SkipLoop d (x :: queue) s s'

section Loop

variable {d : WorkflowDefinition} {queue : List String} {s s' : Session}

/-- A run of the loop is what the function computes with enough fuel. -/
theorem SkipLoop.cascade_skip (h : SkipLoop d queue s s') :
    ∃ turns, ∀ fuel, turns ≤ fuel → cascade_skip d fuel queue s = .ok s' := by
  induction h with
  | done s =>
      refine ⟨0, fun fuel _ => ?_⟩
      cases fuel with
      | zero => rfl
      | succ fuel => rfl
  | missing hget _ ih =>
      obtain ⟨turns, hrun⟩ := ih
      refine ⟨turns + 1, fun fuel hfuel => ?_⟩
      obtain ⟨fuel, rfl⟩ := Nat.exists_eq_add_of_le' (show 1 ≤ fuel by omega)
      simp only [EventFlow.cascade_skip, hget]
      exact hrun fuel (by omega)
  | settled hget hst _ ih =>
      obtain ⟨turns, hrun⟩ := ih
      refine ⟨turns + 1, fun fuel hfuel => ?_⟩
      obtain ⟨fuel, rfl⟩ := Nat.exists_eq_add_of_le' (show 1 ≤ fuel by omega)
      simp only [EventFlow.cascade_skip, hget, if_neg hst]
      exact hrun fuel (by omega)
  | skip hget hst htr _ ih =>
      obtain ⟨turns, hrun⟩ := ih
      refine ⟨turns + 1, fun fuel hfuel => ?_⟩
      obtain ⟨fuel, rfl⟩ := Nat.exists_eq_add_of_le' (show 1 ≤ fuel by omega)
      simp only [EventFlow.cascade_skip, hget, if_pos hst, htr, bind, Except.bind]
      exact hrun fuel (by omega)

/-- With fuel for the queue and the open edges the function has run the loop to its end. A
turn on a node that is not PENDING takes it off the queue, and a turn on a PENDING node
closes its edges; the fuel pays for both. -/
theorem skipLoop_of_cascade_skip {fuel : ℕ}
    (hfuel : queue.length + open_edges d s.nodes ≤ fuel)
    (h : cascade_skip d fuel queue s = .ok s') : SkipLoop d queue s s' := by
  induction fuel generalizing queue s with
  | zero =>
      have hq : queue = [] := List.length_eq_zero_iff.mp (by omega)
      subst hq
      cases h
      exact .done _
  | succ fuel ih =>
      cases queue with
      | nil =>
          cases h
          exact .done _
      | cons x queue =>
          rw [List.length_cons] at hfuel
          simp only [cascade_skip] at h
          split at h
          · rename_i hget
            exact .missing hget (ih (by omega) h)
          · rename_i skip_exec hget
            split at h
            · rename_i hpend
              obtain ⟨s₁, htr, -, hnodes⟩ :=
                transition_node_status_total .SKIPPED hget hpend rfl
              rw [htr] at h
              refine .skip hget hpend htr (ih ?_ h)
              -- the turn pays for the children it queues with the edges it closes
              obtain ⟨hkey, rfl⟩ := Table.get?_eq_some_iff.mp hget
              have h1 := length_append_new queue (d.child_ids x)
              have hskip : ((s.nodes.row x).enter .SKIPPED s.now).status ≠ .PENDING := by simp
              have h2 := open_edges_set (d := d) ⟨hkey, hpend⟩ hskip
              rw [← hnodes] at h2
              omega
            · rename_i hpend
              exact .settled hget hpend (ih (by omega) h)

end Loop

/-! ## The branch targets -/

/-- An unselected branch target: a path of a condition that is not empty and is
not the `next_node` of the result. -/
def UnselectedPath (node_def : Node) (output : JsonObject) (x : String) : Prop :=
  node_def.type = "condition" ∧ x ≠ "" ∧
    (JsonObject.get node_def.config "true_path" = .str x ∨
      JsonObject.get node_def.config "false_path" = .str x) ∧
    JsonObject.get output "next_node" ≠ .str x

/-- The paths of a condition are strings. -/
def StringPaths (node_def : Node) : Prop :=
  node_def.type = "condition" →
    ∃ true_path false_path, JsonObject.get node_def.config "true_path" = .str true_path ∧
      JsonObject.get node_def.config "false_path" = .str false_path

section Targets

variable {node_def : Node} {output : JsonObject} {ids : List String} {x : String}

/-- A string equals a JSON value in Python only if it is that value. -/
theorem py_eq_str_iff {c : String} {j : Json} : Json.py_eq (.str c) j = true ↔ j = .str c := by
  cases j with
  | str a =>
      rw [Json.py_eq_str, beq_iff_eq, Json.str.injEq]
      exact eq_comm
  | _ => simp [Json.py_eq]

/-- What one candidate adds to the set. -/
theorem mem_add_skip_id {chosen : Json} {c : String} {ids' : List String}
    (h : add_skip_id chosen ids (.str c) = .ok ids') :
    x ∈ ids' ↔ x ∈ ids ∨ (x = c ∧ c ≠ "" ∧ chosen ≠ .str c) := by
  unfold add_skip_id at h
  split at h
  · rename_i hcond
    have hc : c ≠ "" ∧ chosen ≠ .str c := by
      simp only [Bool.and_eq_true, Bool.not_eq_true', Json.truthy, bne_iff_ne] at hcond
      refine ⟨hcond.1, fun heq => ?_⟩
      rw [py_eq_str_iff.mpr heq] at hcond
      exact absurd hcond.2 (by simp)
    simp only [Except.ok.injEq] at h
    rw [← h]
    split
    · rename_i hmem
      constructor
      · exact .inl
      · rintro (hx | ⟨rfl, -, -⟩)
        · exact hx
        · exact hmem
    · rw [List.mem_append, List.mem_singleton]
      tauto
  · rename_i hcond
    simp only [Except.ok.injEq] at h
    rw [← h]
    have hno : ¬ (c ≠ "" ∧ chosen ≠ .str c) := by
      rintro ⟨hne, hch⟩
      apply hcond
      simp only [Bool.and_eq_true, Bool.not_eq_true', Json.truthy, bne_iff_ne]
      refine ⟨hne, ?_⟩
      rw [← Bool.not_eq_true]
      exact fun heq => hch (py_eq_str_iff.mp heq)
    tauto

/-- Adding strings does not raise. -/
theorem add_skip_id_returns (chosen : Json) (ids : List String) (c : String) :
    ∃ ids', add_skip_id chosen ids (.str c) = .ok ids' := by
  unfold add_skip_id
  split
  · exact ⟨_, rfl⟩
  · exact ⟨ids, rfl⟩

/-- **The set of branch targets** of string paths. A path is a target if it is not empty
and not the one that was chosen; each is added once. -/
theorem skip_ids_spec (hpaths : StringPaths node_def) (output : JsonObject) :
    ∃ ids, skip_ids node_def output = .ok ids ∧
      ∀ x, x ∈ ids ↔ UnselectedPath node_def output x := by
  unfold skip_ids UnselectedPath
  split
  · rename_i htype
    obtain ⟨t, f, ht, hf⟩ := hpaths htype
    obtain ⟨ids, hids⟩ := add_skip_id_returns (JsonObject.get output "next_node") [] t
    obtain ⟨ids', hids'⟩ := add_skip_id_returns (JsonObject.get output "next_node") ids f
    refine ⟨ids', by simp only [ht, hf, hids, hids', bind, Except.bind], fun x => ?_⟩
    rw [mem_add_skip_id hids', mem_add_skip_id hids, ht, hf]
    simp only [List.not_mem_nil, false_or, htype, true_and, Json.str.injEq]
    constructor
    · rintro (⟨rfl, hne, hch⟩ | ⟨rfl, hne, hch⟩)
      · exact ⟨hne, .inl rfl, hch⟩
      · exact ⟨hne, .inr rfl, hch⟩
    · rintro ⟨hne, rfl | rfl, hch⟩
      · exact .inl ⟨rfl, hne, hch⟩
      · exact .inr ⟨rfl, hne, hch⟩
  · rename_i htype
    refine ⟨[], rfl, fun x => ?_⟩
    simp [htype]

end Targets

/-! ## A whole call -/

/-- A call of `_queue_downstream_nodes` that returns: `order` is the order in
which `list(skip_ids)` gives the members of the set. -/
def DownstreamCall (s : Session) (d : WorkflowDefinition) (node_def : Node) (n : String)
    (result : ExecutorResult) (order : List String) (s' : Session) (pubs : List String) : Prop :=
  ∃ ids s₁, skip_ids node_def result.output = .ok ids ∧ order.Perm ids ∧
    SkipLoop d order s s₁ ∧ queue_children d (d.child_ids n) s₁ [] = .ok (s', pubs)

section Call

variable {s s' : Session} {d : WorkflowDefinition} {node_def : Node} {n : String}
  {result : ExecutorResult} {order pubs : List String}

/-- Every order of the set leads to a call that returns. -/
theorem exists_downstreamCall {ids : List String}
    (hids : skip_ids node_def result.output = .ok ids)
    (hps : ∀ c ∈ d.child_ids n, ∀ p ∈ d.parent_ids c, p ∈ s.nodes.keys)
    (hperm : order.Perm ids) : ∃ s' pubs, DownstreamCall s d node_def n result order s' pubs := by
  have hfuel : order.length + open_edges d s.nodes ≤ order.length + d.edges.length :=
    Nat.add_le_add_left List.countP_le_length _
  obtain ⟨s₁, hrun, hsame, -, -⟩ := cascade_skip_spec d _ order s hfuel
  obtain ⟨s₂, new, hq, -⟩ := queue_children_spec d (d.child_ids n) s₁ []
    (by rwa [hsame.steps.sameFrame.keys])
  exact ⟨s₂, _, ids, s₁, hids, hperm, skipLoop_of_cascade_skip hfuel hrun, hq⟩

/-- The function of the model is the call that iterates in insertion order. -/
theorem downstreamCall_of_queue_downstream_nodes (hchild : d.child_ids n ≠ [])
    (h : queue_downstream_nodes s d node_def n result = .ok (s', pubs)) :
    ∃ order, DownstreamCall s d node_def n result order s' pubs := by
  cases hids : skip_ids node_def result.output with
  | error e => simp only [queue_downstream_nodes, hchild, if_false, hids, bind, Except.bind,
      reduceCtorEq] at h
  | ok ids =>
      have hfuel : ids.length + open_edges d s.nodes ≤ ids.length + d.edges.length :=
        Nat.add_le_add_left List.countP_le_length _
      obtain ⟨s₁, hrun, -, -, -⟩ := cascade_skip_spec d _ ids s hfuel
      simp only [queue_downstream_nodes, hchild, if_false, hids, bind, Except.bind, hrun] at h
      exact ⟨ids, ids, s₁, hids, .refl ids, skipLoop_of_cascade_skip hfuel hrun, h⟩

/-- What a call has done when it returns. -/
theorem DownstreamCall.effect (h : DownstreamCall s d node_def n result order s' pubs)
    (hps : ∀ c ∈ d.child_ids n, ∀ p ∈ d.parent_ids c, p ∈ s.nodes.keys) :
    SameButNodes s s' ∧ DownstreamEffect d n order s.now s.nodes s'.nodes pubs := by
  obtain ⟨ids, s₁, -, -, hloop, hqueue⟩ := h
  -- the loop is the function at a fuel that serves both lemmas
  obtain ⟨turns, hturns⟩ := hloop.cascade_skip
  obtain ⟨s₂, hrun, hsame, hskip, hkeep⟩ := cascade_skip_spec d
    (turns + (order.length + open_edges d s.nodes)) order s (by omega)
  rw [hturns _ (by omega), Except.ok.injEq] at hrun
  subst hrun
  have hframe := hsame.steps.sameFrame
  obtain ⟨s₃, new, hq, hsame', hnd, hmem, hqueued, hrest⟩ :=
    queue_children_spec d (d.child_ids n) s₁ [] (by rwa [hframe.keys])
  rw [hqueue, List.nil_append, Except.ok.injEq, Prod.mk.injEq] at hq
  obtain ⟨rfl, rfl⟩ := hq
  have hready := ready_after_cascade hframe.keys hskip hkeep
  have hnoskip : ∀ m ∈ pubs, ¬ SkipSet d s.nodes order m := fun m hm =>
    ((hready m).mp ((hmem m).mp hm).2).2
  refine ⟨hsame.trans hsame', ⟨?_, ?_, ?_, ?_, hnd⟩⟩
  · intro m hm
    rw [hrest m fun h => hnoskip m h hm, hskip m hm]
  · intro m hm
    rw [hqueued m hm, hkeep m (hnoskip m hm), hframe.now]
  · intro m hm hp
    rw [hrest m hp, hkeep m hm]
  · intro m
    rw [hmem, hready]

end Call

/-! ## The effect in terms of statuses -/

/-- `m` has been moved to `status`. -/
def MovedTo (before after : Table String NodeExecution) (status : NodeExecutionStatus)
    (m : String) : Prop :=
  m ∈ before.keys ∧ (before.row m).status ≠ status ∧ (after.row m).status = status

/-- Work rests on successes, and skipping is closed under successors. -/
structure JoinInv (d : WorkflowDefinition) (nodes : Table String NodeExecution) : Prop where
  started : ∀ m ∈ nodes.keys, (nodes.row m).status ≠ .PENDING →
    (nodes.row m).status ≠ .SKIPPED → ParentsSucceeded d nodes m
  skipped : ∀ m ∈ nodes.keys, (nodes.row m).status = .SKIPPED →
    ∀ c ∈ d.child_ids m, (nodes.row c).status = .SKIPPED

/-- What one call has done to the node rows. -/
structure DownstreamExact (d : WorkflowDefinition) (node_def : Node) (n : String)
    (output : JsonObject) (before after : Table String NodeExecution) (pubs : List String) :
    Prop where
  keys : after.keys = before.keys
  /-- SKIPPED are the PENDING nodes reached from the unselected targets through
  PENDING nodes. -/
  skipped : ∀ m, MovedTo before after .SKIPPED m ↔
    ReachVia (fun a b => b ∈ d.child_ids a) (Open before) (UnselectedPath node_def output) m
  /-- QUEUED are the successors that are then still PENDING and whose parents
  have all succeeded. -/
  queued : ∀ m, MovedTo before after .QUEUED m ↔
    m ∈ d.child_ids n ∧ Open before m ∧ ¬ MovedTo before after .SKIPPED m ∧
      ParentsSucceeded d before m
  /-- Those are returned, each of them once. -/
  returned : ∀ m, m ∈ pubs ↔ MovedTo before after .QUEUED m
  once : pubs.Nodup
  /-- No other row is touched. -/
  same : ∀ m, ¬ MovedTo before after .SKIPPED m → ¬ MovedTo before after .QUEUED m →
    after.row m = before.row m
  /-- The two facts about joins and skips are kept. -/
  inv : JoinInv d before → JoinInv d after

section Exact

variable {d : WorkflowDefinition} {node_def : Node} {n : String} {output : JsonObject}
  {targets pubs : List String} {now : ℕ} {before after : Table String NodeExecution}

/-- A row moved to SKIPPED is one the cascade has reached. -/
theorem DownstreamEffect.movedTo_skipped
    (h : DownstreamEffect d n targets now before after pubs) (m : String) :
    MovedTo before after .SKIPPED m ↔ SkipSet d before targets m := by
  constructor
  · rintro ⟨-, hold, hnew⟩
    rcases h.cases m with ⟨hskip, -, -⟩ | ⟨-, -, -, heq⟩ | ⟨-, -, heq⟩
    · exact hskip
    · rw [heq, NodeExecution.enter_status] at hnew
      cases hnew
    · rw [heq] at hnew
      exact absurd hnew hold
  · intro hm
    refine ⟨hm.isOpen.1, ?_, ?_⟩
    · rw [hm.isOpen.2]
      simp
    · rw [h.skipped m hm, NodeExecution.enter_status]

/-- A row moved to QUEUED is one that is returned. -/
theorem DownstreamEffect.movedTo_queued
    (h : DownstreamEffect d n targets now before after pubs) (m : String) :
    MovedTo before after .QUEUED m ↔ m ∈ pubs := by
  constructor
  · rintro ⟨-, hold, hnew⟩
    rcases h.cases m with ⟨-, -, heq⟩ | ⟨hpub, -, -, -⟩ | ⟨-, -, heq⟩
    · rw [heq, NodeExecution.enter_status] at hnew
      cases hnew
    · exact hpub
    · rw [heq] at hnew
      exact absurd hnew hold
  · intro hm
    obtain ⟨-, ⟨⟨hkey, hpend⟩, -⟩, -⟩ := (h.mem_pubs m).mp hm
    refine ⟨hkey, ?_, ?_⟩
    · rw [hpend]
      simp
    · rw [h.queued m hm, NodeExecution.enter_status]

/-- The loops keep both facts. A successor of a node that is skipped now was PENDING or
SKIPPED, since it had a PENDING parent; a PENDING one is reached by the cascade as well.
The test of the second loop is made after the first, so it never queues a child that has
been skipped. -/
theorem DownstreamEffect.joinInv (h : DownstreamEffect d n targets now before after pubs)
    (hkeys : after.keys = before.keys) (hedges : ∀ e ∈ d.edges, e.to_node ∈ before.keys)
    (hinv : JoinInv d before) : JoinInv d after := by
  constructor
  · intro m hm hpend hskip p hp
    rw [h.succeeded_iff]
    rcases h.cases m with ⟨-, -, heq⟩ | ⟨-, -, hpar, -⟩ | ⟨-, -, heq⟩
    · rw [heq, NodeExecution.enter_status] at hskip
      exact absurd rfl hskip
    · exact hpar p hp
    · rw [heq] at hpend hskip
      rw [hkeys] at hm
      exact hinv.started m hm hpend hskip p hp
  · intro m hm hst c hc
    rw [hkeys] at hm
    have hkey : c ∈ before.keys := by
      obtain ⟨e, he, -, rfl⟩ := WorkflowDefinition.mem_child_ids.mp hc
      exact hedges e he
    -- a child that was skipped before stays skipped
    have hsettled : (before.row c).status = .SKIPPED → (after.row c).status = .SKIPPED := by
      intro hcs
      rw [h.row_of_not_pending (by rw [hcs]; simp), hcs]
    rcases h.cases m with ⟨hskip, hpend, -⟩ | ⟨-, -, -, heq⟩ | ⟨-, -, heq⟩
    · by_cases hcp : (before.row c).status = .PENDING
      · rw [h.skipped c (.step hskip hc ⟨hkey, hcp⟩), NodeExecution.enter_status]
      · apply hsettled
        by_contra hcs
        have hparent := WorkflowDefinition.mem_child_ids_iff_mem_parent_ids.mp hc
        -- a child that had been started would have this parent SUCCEEDED
        have hsucc := hinv.started c hkey hcp hcs m hparent
        rw [hpend] at hsucc
        cases hsucc
    · rw [heq, NodeExecution.enter_status] at hst
      cases hst
    · rw [heq] at hst
      exact hsettled (hinv.skipped m hm hst c hc)

end Exact

/-- **What `_queue_downstream_nodes` does.** For edges between nodes of the
execution, a node with a successor and paths that are strings: the set of
targets is found, every order of it leads to a call that returns, the function
of the model is one of these calls, and all of them have the same effect. That
the node has just been made SUCCEEDED is not needed. -/
theorem queue_downstream_exact (s : Session) (d : WorkflowDefinition) (node_def : Node)
    (n : String) (result : ExecutorResult)
    (hedges : ∀ e ∈ d.edges, e.from_node ∈ s.nodes.keys ∧ e.to_node ∈ s.nodes.keys)
    (hchild : d.child_ids n ≠ []) (hpaths : StringPaths node_def) :
    (∃ ids, skip_ids node_def result.output = .ok ids ∧ ∀ order, order.Perm ids →
      ∃ s' pubs, DownstreamCall s d node_def n result order s' pubs) ∧
    (∃ s' pubs order, queue_downstream_nodes s d node_def n result = .ok (s', pubs) ∧
      DownstreamCall s d node_def n result order s' pubs) ∧
    ∀ order s' pubs, DownstreamCall s d node_def n result order s' pubs →
      DownstreamExact d node_def n result.output s.nodes s'.nodes pubs := by
  have hps : ∀ c ∈ d.child_ids n, ∀ p ∈ d.parent_ids c, p ∈ s.nodes.keys := by
    intro c _ p hp
    obtain ⟨e, he, rfl, -⟩ := WorkflowDefinition.mem_parent_ids.mp hp
    exact (hedges e he).1
  obtain ⟨ids, hids, hmem⟩ := skip_ids_spec hpaths result.output
  refine ⟨⟨ids, hids, fun order => exists_downstreamCall hids hps⟩, ?_, ?_⟩
  · have hT : branch_targets d node_def n result.output = .ok ids := by
      rw [branch_targets, if_neg hchild, hids]
    obtain ⟨s', pubs, hrun, -, -⟩ := queue_downstream_nodes_spec s d node_def n result hT hps
    obtain ⟨order, hcall⟩ := downstreamCall_of_queue_downstream_nodes hchild hrun
    exact ⟨s', pubs, order, hrun, hcall⟩
  · intro order s' pubs hcall
    obtain ⟨hsame, heff⟩ := hcall.effect hps
    have hkeys := hsame.steps.sameFrame.keys
    -- the order holds the members of the set and nothing else
    have horder : ∀ x, x ∈ order ↔ UnselectedPath node_def result.output x := by
      obtain ⟨ids', -, hids', hperm, -⟩ := hcall
      rw [hids, Except.ok.injEq] at hids'
      subst hids'
      exact fun x => hperm.mem_iff.trans (hmem x)
    have hskip := heff.movedTo_skipped
    have hqueue := heff.movedTo_queued
    refine ⟨hkeys, fun m => ?_, fun m => ?_, fun m => (hqueue m).symm, heff.nodup,
      fun m h1 h2 => ?_, heff.joinInv hkeys fun e he => (hedges e he).2⟩
    · rw [hskip]
      exact reachVia_congr (fun _ => Iff.rfl) horder
    · rw [hqueue, heff.mem_pubs, hskip]
      unfold Ready
      tauto
    · exact heff.same m (fun h => h1 ((hskip m).mpr h)) (fun h => h2 ((hqueue m).mpr h))

/-- A condition with one path to run and one path, on a cycle, to skip. -/
def junction_gate : Node where
  id := "gate"
  type := "condition"
  type_length := condition_ne_empty
  config := [("true_path", .str "run_it"), ("false_path", .str "skip_it")]

/-- The edge to the selected path is there twice. -/
def junction : WorkflowDefinition where
  name := "junction"
  nodes := [junction_gate, { id := "run_it", type := "work" }, { id := "skip_it", type := "work" },
    { id := "round", type := "work" }]
  edges := [{ from_node := "gate", to_node := "run_it" },
    { from_node := "gate", to_node := "run_it" }, { from_node := "gate", to_node := "skip_it" },
    { from_node := "skip_it", to_node := "round" },
    { from_node := "round", to_node := "skip_it" }]

/-- The session in which the condition has just succeeded. -/
def junction_session : Session where
  execution_id := 0
  execution := ⟨0, 0, .RUNNING, none, none, none⟩
  nodes.keys := junction.node_ids
  nodes.row := fun n =>
    { node_type := "work"
      status := if n = "gate" then .SUCCEEDED else .PENDING
      attempt := if n = "gate" then 1 else 0
      max_attempts := 1 }
  now := 7

/-- The result that selects `run_it`. -/
def junction_result : ExecutorResult where
  success := true
  output := [("result", .bool true), ("next_node", .str "run_it")]

theorem queue_downstream_exact_junction :
    junction.child_ids "gate" ≠ [] ∧ StringPaths junction_gate ∧
    ∃ s' pubs, queue_downstream_nodes junction_session junction junction_gate "gate"
        junction_result = .ok (s', pubs) ∧
      DownstreamExact junction junction_gate "gate" junction_result.output
        junction_session.nodes s'.nodes pubs := by
  have hpaths : StringPaths junction_gate := fun _ => ⟨"run_it", "skip_it", rfl, rfl⟩
  obtain ⟨-, ⟨s', pubs, order, hrun, hcall⟩, hexact⟩ := queue_downstream_exact junction_session
    junction junction_gate "gate" junction_result (by decide) (by decide) hpaths
  exact ⟨by decide, hpaths, s', pubs, hrun, hexact order s' pubs hcall⟩

end EventFlow
