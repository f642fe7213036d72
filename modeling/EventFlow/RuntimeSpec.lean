/-
What the completion transaction of `process_job` does, in closed form.

[`cascade_skip_spec`] and [`queue_children_spec`] say what the two loops of
`_queue_downstream_nodes` compute, for every edge list and every table of
statuses: the first moves to SKIPPED exactly the PENDING nodes that can be
reached from the unselected targets through PENDING nodes, the second moves to
QUEUED exactly the children that are still PENDING and whose parents have all
succeeded, each once. Both also say that the loop returns, so nothing below is
about runs that might not end.

[`complete_node_success`], [`complete_node_retry`] and [`complete_node_dead`] put
them together with the transitions of the node itself and with the end of the
transaction; [`process_job_complete_committed`] is their union, and with the
inversions of the claim and of recovery it is all that later modules know about
the worker's code.
-/
import EventFlow.Runtime
import EventFlow.Library.Reach

set_option autoImplicit false

namespace EventFlow

open Reach

/-! ## Nodes a loop may still move -/

/-- `m` has a row and the row is PENDING. -/
def Open (nodes : Table String NodeExecution) (m : String) : Prop :=
  m ∈ nodes.keys ∧ (nodes.row m).status = .PENDING

instance (nodes : Table String NodeExecution) (m : String) : Decidable (Open nodes m) :=
  inferInstanceAs (Decidable (_ ∧ _))

/-- The nodes a cascade from `targets` skips. -/
def SkipSet (d : WorkflowDefinition) (nodes : Table String NodeExecution)
    (targets : List String) : String → Prop :=
  ReachVia (fun a b => b ∈ d.child_ids a) (Open nodes) (· ∈ targets)

/-- Every parent of `m` has succeeded. -/
def ParentsSucceeded (d : WorkflowDefinition) (nodes : Table String NodeExecution)
    (m : String) : Prop :=
  ∀ p ∈ d.parent_ids m, (nodes.row p).status = .SUCCEEDED

/-- A row that leaves PENDING leaves the open set; nothing else does. -/
theorem open_set {nodes : Table String NodeExecution} {x m : String} {node : NodeExecution}
    (hst : node.status ≠ .PENDING) : Open (nodes.set x node) m ↔ Open nodes m ∧ m ≠ x := by
  unfold Open
  by_cases hm : m = x
  · subst hm
    simp [hst]
  · simp [Table.row_set_of_ne _ _ hm, hm]

/-- Queueing or skipping a PENDING row changes no verdict about parents. -/
theorem parentsSucceeded_set {d : WorkflowDefinition} {nodes : Table String NodeExecution}
    {x m : String} {node : NodeExecution} (hx : (nodes.row x).status = .PENDING)
    (hst : node.status ≠ .SUCCEEDED) :
    ParentsSucceeded d (nodes.set x node) m ↔ ParentsSucceeded d nodes m := by
  unfold ParentsSucceeded
  refine forall_congr' fun p => forall_congr' fun _ => ?_
  by_cases hp : p = x
  · subst hp
    simp [hst, hx]
  · rw [Table.row_set_of_ne _ _ hp]

/-! ## The skip cascade -/

theorem mem_append_new {queue cs : List String} {x : String} :
    x ∈ append_new queue cs ↔ x ∈ queue ∨ x ∈ cs := by
  induction cs generalizing queue with
  | nil => simp [append_new]
  | cons c cs ih =>
      rw [append_new, ih]
      by_cases hc : c ∈ queue
      · rw [if_pos hc, List.mem_cons]
        constructor
        · rintro (h | h)
          · exact .inl h
          · exact .inr (.inr h)
        · rintro (h | rfl | h)
          · exact .inl h
          · exact .inl hc
          · exact .inr h
      · rw [if_neg hc, List.mem_append, List.mem_singleton, List.mem_cons, or_assoc]

theorem length_append_new (queue cs : List String) :
    (append_new queue cs).length ≤ queue.length + cs.length := by
  induction cs generalizing queue with
  | nil => simp [append_new]
  | cons c cs ih =>
      rw [append_new]
      refine (ih _).trans ?_
      split
      · simp only [List.length_cons]
        omega
      · simp only [List.length_append, List.length_cons, List.length_nil]
        omega

/-- The edges that a cascade may still follow: those out of open nodes. -/
def open_edges (d : WorkflowDefinition) (nodes : Table String NodeExecution) : ℕ :=
  d.edges.countP fun e => decide (Open nodes e.from_node)

/-- Skipping `x` takes its edges off the count. -/
theorem open_edges_set {d : WorkflowDefinition} {nodes : Table String NodeExecution}
    {x : String} {node : NodeExecution} (hx : Open nodes x) (hst : node.status ≠ .PENDING) :
    open_edges d (nodes.set x node) + (d.child_ids x).length = open_edges d nodes := by
  unfold open_edges WorkflowDefinition.child_ids
  rw [List.length_map]
  induction d.edges with
  | nil => rfl
  | cons e es ih =>
      simp only [List.countP_cons, List.filter_cons, decide_eq_true_eq, open_set hst,
        ne_eq] at ih ⊢
      by_cases he : e.from_node = x
      · subst he
        simp only [hx, not_true_eq_false, and_false, if_false, if_true, List.length_cons]
        omega
      · simp only [he, not_false_eq_true, and_true, if_false]
        omega

/-- Whether an event announces the end of an execution. -/
def EventData.terminal : EventData → Bool
  | .execution_updated status => decide (status ∈ TERMINAL_EXECUTION_STATUSES)
  | _ => false

/-- The envelopes that announce the end of an execution. -/
def terminal_events (events : List Envelope) : List Envelope :=
  events.filter fun event => event.data.terminal

/-- An event about a node or a log row is no such announcement. -/
theorem terminal_events_append_of_not {events : List Envelope} {event : Envelope}
    (h : event.data.terminal = false) :
    terminal_events (events ++ [event]) = terminal_events events := by
  simp [terminal_events, List.filter_append, h]

/-- What a loop over nodes leaves alone besides the node rows. -/
structure SameButNodes (s s' : Session) : Prop where
  steps : Session.Steps s s'
  execution : s'.execution = s.execution
  new_dead_letter_jobs : s'.new_dead_letter_jobs = s.new_dead_letter_jobs
  terminal_events : terminal_events s'.ws_events = terminal_events s.ws_events

theorem SameButNodes.refl (s : Session) : SameButNodes s s := ⟨.refl, rfl, rfl, rfl⟩

theorem SameButNodes.trans {s u v : Session} (h₁ : SameButNodes s u) (h₂ : SameButNodes u v) :
    SameButNodes s v :=
  ⟨h₁.steps.trans h₂.steps, h₂.execution.trans h₁.execution,
    h₂.new_dead_letter_jobs.trans h₁.new_dead_letter_jobs,
    h₂.terminal_events.trans h₁.terminal_events⟩

theorem SameButNodes.transition {s s' : Session} {n : String}
    {from_status to_status : NodeExecutionStatus} (hmove : from_status.moves to_status = true)
    (h : transition_node_status s n from_status to_status = .ok s') : SameButNodes s s' := by
  refine ⟨.single (.transition n _ _ hmove h), ?_, ?_, ?_⟩
  all_goals obtain ⟨node, -, -, rfl⟩ := transition_node_status_ok h
  · rfl
  · rfl
  · exact terminal_events_append_of_not rfl

theorem SameButNodes.log {s : Session} (n : Option String) (level : LogLevel)
    (event_type message : String) (metadata : Option JsonObject) :
    SameButNodes s (add_log s n level event_type message metadata) :=
  ⟨.single (.log n level event_type message metadata), rfl, rfl,
    terminal_events_append_of_not rfl⟩

theorem SameButNodes.payload {s : Session} {n : String} {node : NodeExecution}
    (output : Option JsonObject) (error : Option String) (h : s.nodes.get? n = some node) :
    SameButNodes s
      (s.set_node n { node with output_payload := output, error_message := error }) :=
  ⟨.single (.payload n node output error h), rfl, rfl, rfl⟩

/-- A transition from the status a row is in goes through, and updates that
row. -/
theorem transition_node_status_total {s : Session} {n : String} {node : NodeExecution}
    {from_status : NodeExecutionStatus} (to_status : NodeExecutionStatus)
    (hget : s.nodes.get? n = some node) (hst : node.status = from_status)
    (hmove : from_status.moves to_status = true) :
    ∃ s', transition_node_status s n from_status to_status = .ok s' ∧ SameButNodes s s' ∧
      s'.nodes = s.nodes.set n (node.enter to_status s.now) := by
  have htr := transition_node_status_of_status to_status hget hst
  exact ⟨_, htr, .transition hmove htr, rfl⟩

/-- **The skip cascade.** With fuel for the queue and the open edges, it returns
with exactly the nodes of `SkipSet` moved to SKIPPED. The induction is on the
fuel; a turn on an open node is `reachVia_close`, any other turn
`reachVia_drop`. -/
theorem cascade_skip_spec (d : WorkflowDefinition) (fuel : ℕ) (queue : List String)
    (s : Session) (hfuel : queue.length + open_edges d s.nodes ≤ fuel) :
    ∃ s', cascade_skip d fuel queue s = .ok s' ∧ SameButNodes s s' ∧
      (∀ m, SkipSet d s.nodes queue m →
        s'.nodes.row m = (s.nodes.row m).enter .SKIPPED s.now) ∧
      (∀ m, ¬ SkipSet d s.nodes queue m → s'.nodes.row m = s.nodes.row m) := by
  induction fuel generalizing queue s with
  | zero =>
      have hq : queue = [] := List.length_eq_zero_iff.mp (by omega)
      subst hq
      refine ⟨s, rfl, .refl s, fun m hm => ?_, fun _ _ => rfl⟩
      exact absurd (hm.mono (fun _ h => h) (fun _ h => by simp at h)) not_reachVia_empty
  | succ fuel ih =>
      cases queue with
      | nil =>
          refine ⟨s, rfl, .refl s, fun m hm => ?_, fun _ _ => rfl⟩
          exact absurd (hm.mono (fun _ h => h) (fun _ h => by simp at h)) not_reachVia_empty
      | cons x queue =>
          have hcons : ∀ m, SkipSet d s.nodes (x :: queue) m ↔
              ReachVia (fun a b => b ∈ d.child_ids a) (Open s.nodes)
                (fun y => y = x ∨ y ∈ queue) m := fun m =>
            reachVia_congr (fun _ => Iff.rfl) (fun y => List.mem_cons)
          by_cases hx : Open s.nodes x
          · -- `x` is closed: its edges leave the fuel, its children join the queue
            obtain ⟨hkey, hpend⟩ := hx
            have hget := Table.get?_of_mem hkey
            obtain ⟨s1, htr, hsame1, hnodes⟩ := transition_node_status_total .SKIPPED hget hpend rfl
            have hnow := hsame1.steps.sameFrame.now
            have hnp : ((s.nodes.row x).enter .SKIPPED s.now).status ≠ .PENDING := by simp
            obtain ⟨s', hrun, hsame, hskip, hkeep⟩ := ih (append_new queue (d.child_ids x)) s1
              (by
                have h1 := length_append_new queue (d.child_ids x)
                have h2 := open_edges_set (d := d) ⟨hkey, hpend⟩ hnp
                rw [← hnodes] at h2
                rw [List.length_cons] at hfuel
                omega)
            have hset : ∀ m, SkipSet d s.nodes (x :: queue) m ↔
                m = x ∨ SkipSet d s1.nodes (append_new queue (d.child_ids x)) m := by
              intro m
              rw [hcons, reachVia_close (P := Open s.nodes) ⟨hkey, hpend⟩]
              refine or_congr_right (reachVia_congr (fun y => ?_) (fun y => ?_))
              · rw [hnodes, open_set hnp]
              · rw [mem_append_new]
            refine ⟨s', ?_, hsame1.trans hsame, ?_, ?_⟩
            · simp only [cascade_skip, hget, hpend, if_true, htr, bind, Except.bind]
              exact hrun
            · intro m hm
              rcases (hset m).mp hm with rfl | hm'
              · by_cases hm' : SkipSet d s1.nodes (append_new queue (d.child_ids m)) m
                · have := hm'.isOpen
                  rw [hnodes, open_set hnp] at this
                  exact absurd rfl this.2
                · rw [hkeep m hm', hnodes, Table.row_set_self]
              · have hopen := hm'.isOpen
                rw [hnodes, open_set hnp] at hopen
                rw [hskip m hm', hnodes, hnow, Table.row_set_of_ne _ _ hopen.2]
            · intro m hm
              have hno := fun h => hm ((hset m).mpr h)
              rw [hkeep m fun h => hno (.inr h), hnodes,
                Table.row_set_of_ne _ _ fun h => hno (.inl h)]
          · -- `x` is dropped
            obtain ⟨s', hrun, hsame, hskip, hkeep⟩ := ih queue s (by
              rw [List.length_cons] at hfuel
              omega)
            have hset : ∀ m, SkipSet d s.nodes (x :: queue) m ↔ SkipSet d s.nodes queue m :=
              fun m => (hcons m).trans (reachVia_drop hx)
            refine ⟨s', ?_, hsame, fun m hm => hskip m ((hset m).mp hm),
              fun m hm => hkeep m fun h => hm ((hset m).mpr h)⟩
            simp only [cascade_skip]
            split
            · exact hrun
            · rename_i row hrow
              obtain ⟨hkey, rfl⟩ := Table.get?_eq_some_iff.mp hrow
              rw [if_neg fun h => hx ⟨hkey, h⟩]
              exact hrun

/-! ## Queueing the children -/

theorem all_parents_succeeded_spec {nodes : Table String NodeExecution} {ps : List String}
    (hps : ∀ p ∈ ps, p ∈ nodes.keys) :
    all_parents_succeeded nodes ps
      = .ok (decide (∀ p ∈ ps, (nodes.row p).status = .SUCCEEDED)) := by
  induction ps with
  | nil => rfl
  | cons p ps ih =>
      simp only [all_parents_succeeded, Table.get?_of_mem (hps p List.mem_cons_self)]
      split
      · rename_i hst
        rw [ih fun q hq => hps q (List.mem_cons_of_mem _ hq)]
        simp [hst]
      · rename_i hst
        simp [hst]

/-- The children of a list that the second loop queues. -/
def Ready (d : WorkflowDefinition) (nodes : Table String NodeExecution) (m : String) : Prop :=
  Open nodes m ∧ ParentsSucceeded d nodes m

/-- **Queueing the children**: exactly the ready ones, each once. By induction on the
children. Queueing one of them does not change whether another is ready, because a child
that is QUEUED is not SUCCEEDED and so counts as an unready parent before and after; but a
child that occurs twice is not PENDING the second time, and that is why each is queued
once. -/
theorem queue_children_spec (d : WorkflowDefinition) (cs : List String) (s : Session)
    (out : List String) (hps : ∀ c ∈ cs, ∀ p ∈ d.parent_ids c, p ∈ s.nodes.keys) :
    ∃ s' new, queue_children d cs s out = .ok (s', out ++ new) ∧ SameButNodes s s' ∧
      new.Nodup ∧ (∀ m, m ∈ new ↔ m ∈ cs ∧ Ready d s.nodes m) ∧
      (∀ m ∈ new, s'.nodes.row m = (s.nodes.row m).enter .QUEUED s.now) ∧
      (∀ m, m ∉ new → s'.nodes.row m = s.nodes.row m) := by
  induction cs generalizing s out with
  | nil => exact ⟨s, [], by simp [queue_children], .refl s, by simp, by simp, by simp, by simp⟩
  | cons c cs ih =>
      have hps' := fun c' h => hps c' (List.mem_cons_of_mem c h)
      by_cases hready : Ready d s.nodes c
      · obtain ⟨⟨hkey, hpend⟩, hsucc⟩ := hready
        have hget := Table.get?_of_mem hkey
        obtain ⟨s1, htr, hsame1, hnodes⟩ := transition_node_status_total .QUEUED hget hpend rfl
        have hnow := hsame1.steps.sameFrame.now
        obtain ⟨s', new, hrun, hsame, hnd, hmem, hq, hkeep⟩ := ih s1 (out ++ [c]) (by
          rw [hnodes]
          exact hps')
        -- queueing `c` makes no other child ready and `c` itself not ready again
        have hnew : ∀ m, m ∈ new ↔ m ∈ cs ∧ Ready d s.nodes m ∧ m ≠ c := by
          intro m
          rw [hmem, hnodes]
          unfold Ready
          rw [open_set (by simp), parentsSucceeded_set hpend (by simp)]
          tauto
        refine ⟨s', c :: new, ?_, hsame1.trans hsame, ?_, ?_, ?_, ?_⟩
        · simp only [queue_children, hget, hpend, ne_eq, not_true_eq_false, if_false,
            all_parents_succeeded_spec (hps c List.mem_cons_self), bind, Except.bind]
          unfold ParentsSucceeded at hsucc
          rw [decide_eq_true hsucc]
          simp only [Bool.not_true, Bool.false_eq_true, if_false, htr]
          rw [hrun, List.append_assoc, List.singleton_append]
        · exact List.nodup_cons.mpr ⟨fun h => ((hnew c).mp h).2.2 rfl, hnd⟩
        · intro m
          rw [List.mem_cons, hnew, List.mem_cons]
          by_cases hm : m = c
          · subst hm
            simp only [true_or, true_and, true_iff]
            exact ⟨⟨hkey, hpend⟩, hsucc⟩
          · tauto
        · intro m hm
          rcases List.mem_cons.mp hm with rfl | hm
          · rw [hkeep m fun h => ((hnew m).mp h).2.2 rfl, hnodes, Table.row_set_self]
          · rw [hq m hm, hnodes, hnow, Table.row_set_of_ne _ _ ((hnew m).mp hm).2.2]
        · intro m hm
          rw [List.mem_cons, not_or] at hm
          rw [hkeep m hm.2, hnodes, Table.row_set_of_ne _ _ hm.1]
      · obtain ⟨s', new, hrun, hsame, hnd, hmem, hq, hkeep⟩ := ih s out hps'
        refine ⟨s', new, ?_, hsame, hnd, ?_, hq, hkeep⟩
        · simp only [queue_children]
          split
          · exact hrun
          · rename_i row hrow
            obtain ⟨hkey, rfl⟩ := Table.get?_eq_some_iff.mp hrow
            split
            · exact hrun
            · -- PENDING and not ready: a parent has not succeeded
              rename_i hpend
              have hno : ¬ ∀ p ∈ d.parent_ids c, (s.nodes.row p).status = .SUCCEEDED :=
                fun h => hready ⟨⟨hkey, not_not.mp hpend⟩, h⟩
              rw [all_parents_succeeded_spec (hps c List.mem_cons_self), decide_eq_false hno]
              exact hrun
        · intro m
          rw [hmem, List.mem_cons]
          constructor
          · rintro ⟨h1, h2⟩
            exact ⟨.inr h1, h2⟩
          · rintro ⟨rfl | h1, h2⟩
            · exact absurd h2 hready
            · exact ⟨h1, h2⟩

/-! ## `_queue_downstream_nodes` as a whole -/

/-- The targets the cascade starts from: none when the node has no children,
because the function returns before it looks at the branches. -/
def branch_targets (d : WorkflowDefinition) (node_def : Node) (n : String)
    (output : JsonObject) : Except PyError (List String) :=
  if d.child_ids n = [] then .ok [] else skip_ids node_def output

/-- What `_queue_downstream_nodes` does to the node rows. -/
structure DownstreamEffect (d : WorkflowDefinition) (n : String) (targets : List String)
    (now : ℕ) (before after : Table String NodeExecution) (pubs : List String) : Prop where
  skipped : ∀ m, SkipSet d before targets m → after.row m = (before.row m).enter .SKIPPED now
  queued : ∀ m ∈ pubs, after.row m = (before.row m).enter .QUEUED now
  same : ∀ m, ¬ SkipSet d before targets m → m ∉ pubs → after.row m = before.row m
  mem_pubs : ∀ m, m ∈ pubs ↔
    m ∈ d.child_ids n ∧ Ready d before m ∧ ¬ SkipSet d before targets m
  nodup : pubs.Nodup

/-- After the cascade, a node is ready if it was ready and has not been
skipped. -/
theorem ready_after_cascade {d : WorkflowDefinition} {before after : Table String NodeExecution}
    {targets : List String} {now : ℕ} (hkeys : after.keys = before.keys)
    (hskip : ∀ m, SkipSet d before targets m →
      after.row m = (before.row m).enter .SKIPPED now)
    (hkeep : ∀ m, ¬ SkipSet d before targets m → after.row m = before.row m) (m : String) :
    Ready d after m ↔ Ready d before m ∧ ¬ SkipSet d before targets m := by
  have hopen : Open after m ↔ Open before m ∧ ¬ SkipSet d before targets m := by
    unfold Open
    by_cases hm : SkipSet d before targets m
    · simp [hskip m hm, hm]
    · simp [hkeep m hm, hkeys, hm]
  have hpar : ParentsSucceeded d after m ↔ ParentsSucceeded d before m := by
    unfold ParentsSucceeded
    refine forall_congr' fun p => forall_congr' fun _ => ?_
    by_cases hp : SkipSet d before targets p
    · simp [hskip p hp, hp.isOpen.2]
    · rw [hkeep p hp]
  unfold Ready
  rw [hopen, hpar]
  tauto

theorem queue_downstream_nodes_error {s : Session} {d : WorkflowDefinition} {node_def : Node}
    {n : String} {result : ExecutorResult} {e : PyError}
    (h : branch_targets d node_def n result.output = .error e) :
    queue_downstream_nodes s d node_def n result = .error e := by
  unfold branch_targets at h
  unfold queue_downstream_nodes
  split at h
  · cases h
  · rename_i hchildren
    simp only [hchildren, if_false, h, bind, Except.bind]

/-- **`_queue_downstream_nodes`** returns unless a branch target cannot be hashed, with
exactly the effect described above. The second loop runs on the table that the first one
has left, so a child that has just been skipped is not queued, and a child of a skipped
node is not either. -/
theorem queue_downstream_nodes_spec (s : Session) (d : WorkflowDefinition) (node_def : Node)
    (n : String) (result : ExecutorResult) {targets : List String}
    (hT : branch_targets d node_def n result.output = .ok targets)
    (hps : ∀ c ∈ d.child_ids n, ∀ p ∈ d.parent_ids c, p ∈ s.nodes.keys) :
    ∃ s' pubs, queue_downstream_nodes s d node_def n result = .ok (s', pubs) ∧
      SameButNodes s s' ∧ DownstreamEffect d n targets s.now s.nodes s'.nodes pubs := by
  unfold branch_targets at hT
  split at hT
  · rename_i hchildren
    cases hT
    have hnone : ∀ m, ¬ SkipSet d s.nodes [] m := fun m hm =>
      absurd (hm.mono (fun _ h => h) (fun _ h => by simp at h)) not_reachVia_empty
    refine ⟨s, [], by simp [queue_downstream_nodes, hchildren], .refl s, ?_⟩
    exact ⟨fun m hm => absurd hm (hnone m), by simp, fun _ _ _ => rfl,
      by simp [hchildren], by simp⟩
  · rename_i hchildren
    obtain ⟨s1, hrun1, hsame1, hskip, hkeep⟩ := cascade_skip_spec d
      (targets.length + d.edges.length) targets s
      (Nat.add_le_add_left List.countP_le_length _)
    have hframe := hsame1.steps.sameFrame
    obtain ⟨s2, pubs, hrun2, hsame2, hnd, hmem, hq, hkeep2⟩ :=
      queue_children_spec d (d.child_ids n) s1 [] (by rwa [hframe.keys])
    have hready := ready_after_cascade hframe.keys hskip hkeep
    refine ⟨s2, pubs, ?_, hsame1.trans hsame2, ?_⟩
    · simp only [queue_downstream_nodes, hchildren, if_false, hT, bind, Except.bind, hrun1,
        hrun2, List.nil_append]
    · have hnoskip : ∀ m ∈ pubs, ¬ SkipSet d s.nodes targets m := fun m hm =>
        ((hready m).mp ((hmem m).mp hm).2).2
      refine ⟨fun m hm => ?_, fun m hm => ?_, fun m hm hp => ?_, fun m => ?_, hnd⟩
      · rw [hkeep2 m fun h => hnoskip m h hm, hskip m hm]
      · rw [hq m hm, hkeep m (hnoskip m hm), hframe.now]
      · rw [hkeep2 m hp, hkeep m hm]
      · rw [hmem, hready]

/-! ## The end of the transaction -/

/-- The execution instance after the all-terminal test. -/
def finalised (nodes : Table String NodeExecution) (execution : Execution) (now : ℕ) :
    Execution :=
  if (nodes.all.all fun ne => ne.status ∈ TERMINAL_NODE_STATUSES) ∧
      execution.status = .RUNNING then
    execution.enter
      (if nodes.all.any fun ne => ne.status ∈ [.FAILED, .DEAD_LETTERED] then .FAILED
        else .SUCCEEDED) now
  else execution

/-- What a unit of work does to the execution instance and its announcements:
nothing, or one move from RUNNING to its end, announced once. -/
inductive Ends (s s' : Session) : Prop
  | stays : s'.execution = s.execution →
      terminal_events s'.ws_events = terminal_events s.ws_events → Ends s s'
  | ends (status : ExecutionStatus) : status = .SUCCEEDED ∨ status = .FAILED →
      s.execution.status = .RUNNING → s'.execution = s.execution.enter status s.now →
      terminal_events s'.ws_events = terminal_events s.ws_events
        ++ [⟨s.execution_id, s.now, .execution_updated status⟩] → Ends s s'

theorem SameButNodes.ends {s s' : Session} (h : SameButNodes s s') : Ends s s' :=
  .stays h.execution h.terminal_events

/-- Two units of work in a row end the execution at most once: after the first
the instance is no longer RUNNING. -/
theorem Ends.trans {s u v : Session} (hsteps : Session.Steps s u) (h₁ : Ends s u)
    (h₂ : Ends u v) : Ends s v := by
  have hframe := hsteps.sameFrame
  cases h₁ with
  | stays hexec hev =>
      cases h₂ with
      | stays hexec' hev' => exact .stays (hexec'.trans hexec) (hev'.trans hev)
      | ends status hst hrun hexec' hev' =>
          refine .ends status hst (hexec ▸ hrun) ?_ ?_
          · rw [hexec', hexec, hframe.now]
          · rw [hev', hev, hframe.now, hframe.execution_id]
  | ends status hst hrun hexec hev =>
      cases h₂ with
      | stays hexec' hev' =>
          exact .ends status hst hrun (hexec'.trans hexec) (hev'.trans hev)
      | ends status' _ hrun' _ _ =>
          rw [hexec, Execution.enter_status] at hrun'
          rcases hst with rfl | rfl <;> cases hrun'

/-- The step that ends an execution. -/
theorem Ends.transition {s : Session} {status : ExecutionStatus}
    (hst : status = .SUCCEEDED ∨ status = .FAILED) (hrun : s.execution.status = .RUNNING) :
    Ends s ({ s with execution := s.execution.enter status s.now }.stage_event
      (.execution_updated status)) := by
  refine .ends status hst hrun rfl ?_
  rcases hst with rfl | rfl <;>
    simp [terminal_events, List.filter_append, EventData.terminal, TERMINAL_EXECUTION_STATUSES]

theorem finalise_spec (s : Session) :
    ∃ s', finalise s = .ok s' ∧ Session.Steps s s' ∧ s'.nodes = s.nodes ∧
      s'.new_dead_letter_jobs = s.new_dead_letter_jobs ∧ Ends s s' ∧
      s'.execution = finalised s.nodes s.execution s.now := by
  unfold finalise finalised
  split
  · rename_i hend
    have htr := transition_execution_status_of_status (s := s)
      (if s.nodes.all.any fun ne => ne.status ∈ [.FAILED, .DEAD_LETTERED] then .FAILED
        else .SUCCEEDED) hend.2
    refine ⟨_, htr, .single (.transition_execution _ _ htr), rfl, rfl, ?_, rfl⟩
    exact Ends.transition (by split <;> simp) hend.2
  · exact ⟨s, rfl, .refl, rfl, rfl, .stays rfl rfl, rfl⟩

/-- An instance that is not RUNNING is left alone. -/
theorem finalised_of_not_running {nodes : Table String NodeExecution} {execution : Execution}
    (now : ℕ) (h : execution.status ≠ .RUNNING) : finalised nodes execution now = execution :=
  if_neg fun hc => h hc.2

/-- A node that is not terminal keeps the execution open. -/
theorem finalised_of_not_terminal {nodes : Table String NodeExecution} {execution : Execution}
    (now : ℕ) {m : String} (hm : m ∈ nodes.keys)
    (hst : (nodes.row m).status ∉ TERMINAL_NODE_STATUSES) :
    finalised nodes execution now = execution := by
  refine if_neg fun hc => hst ?_
  have := List.all_eq_true.mp hc.1 (nodes.row m) (Table.mem_all.mpr ⟨m, hm, rfl⟩)
  simpa using this

/-! ## The transaction on a RUNNING node -/

/-- The row of a node whose executor returned `output`. -/
def NodeExecution.succeed (node : NodeExecution) (output : JsonObject) (now : ℕ) :
    NodeExecution :=
  ({ node with output_payload := some output } : NodeExecution).enter .SUCCEEDED now

/-- The row of a node whose executor failed, before the retry policy is asked. -/
def NodeExecution.fail (node : NodeExecution) (error : Option String) (now : ℕ) :
    NodeExecution :=
  ({ node with error_message := error } : NodeExecution).enter .FAILED now

/-- The row of a node that failed and is to be tried again. -/
def NodeExecution.retry (node : NodeExecution) (error : Option String) (now : ℕ) :
    NodeExecution :=
  ((node.fail error now).enter .RETRYING now).enter .QUEUED now

/-- The row of a node that failed for good. -/
def NodeExecution.dead_letter (node : NodeExecution) (error : Option String) (now : ℕ) :
    NodeExecution :=
  (node.fail error now).enter .DEAD_LETTERED now

section Complete

variable {s : Session} {d : WorkflowDefinition} {node_def : Node} {n : String}
  {node : NodeExecution} {result : ExecutorResult}

/-- Retrying a failed node. -/
theorem handle_node_failure_retry (hget : s.nodes.get? n = some node)
    (hst : node.status = .FAILED) (hleft : node.attempt < node.max_attempts) :
    ∃ s', handle_node_failure s n = .ok (s', [n]) ∧ SameButNodes s s' ∧
      s'.nodes = s.nodes.set n ((node.enter .RETRYING s.now).enter .QUEUED s.now) := by
  obtain ⟨hkey, hrow⟩ := Table.get?_eq_some_iff.mp hget
  obtain ⟨s1, htr1, hsame1, hnodes1⟩ := transition_node_status_total .RETRYING hget hst rfl
  have hget1 : s1.nodes.get? n = some (node.enter .RETRYING s.now) := by
    rw [hnodes1, Table.get?_set_self _ hkey]
  obtain ⟨s2, htr2, hsame2, hnodes2⟩ := transition_node_status_total .QUEUED hget1
    (show (node.enter .RETRYING s.now).status = .RETRYING from rfl) rfl
  have hnow1 := hsame1.steps.sameFrame.now
  refine ⟨retry_scheduled s2 n (s2.nodes.row n).attempt, ?_,
    (hsame1.trans hsame2).trans (.log ..), ?_⟩
  · simp only [handle_node_failure, hrow, if_pos hleft, htr1, htr2, bind, Except.bind, pure,
      Except.pure]
  · change s2.nodes = _
    rw [hnodes2, hnodes1, hnow1, Table.set_set]

/-- Dead-lettering a failed node. -/
theorem handle_node_failure_dead (hget : s.nodes.get? n = some node)
    (hst : node.status = .FAILED) (hleft : ¬ node.attempt < node.max_attempts) :
    ∃ s', handle_node_failure s n = .ok (s', []) ∧ Session.Steps s s' ∧
      s'.nodes = s.nodes.set n (node.enter .DEAD_LETTERED s.now) ∧
      s'.new_dead_letter_jobs = s.new_dead_letter_jobs ++ [s.dead_letter_job n node] ∧
      Ends s s' ∧
      s'.execution = if s.execution.status = .RUNNING then s.execution.enter .FAILED s.now
        else s.execution := by
  obtain ⟨hkey, hrow⟩ := Table.get?_eq_some_iff.mp hget
  obtain ⟨s1, htr1, hsame1, hnodes1⟩ := transition_node_status_total .DEAD_LETTERED hget hst rfl
  obtain ⟨s2, hs2⟩ : ∃ s2, s2 = (dead_lettered s1 n node.error_message).add_dead_letter_job
      (s.dead_letter_job n node) := ⟨_, rfl⟩
  have hsteps2 : Session.Steps s s2 := by
    rw [hs2]
    exact (hsame1.steps.tail (.log ..)).tail (.dead_letter _)
  have hnodes2 : s2.nodes = s.nodes.set n (node.enter .DEAD_LETTERED s.now) := by
    rw [hs2, ← hnodes1]
    rfl
  have hexec2 : s2.execution = s.execution := by
    rw [hs2, ← hsame1.execution]
    rfl
  have hdead2 : s2.new_dead_letter_jobs
      = s.new_dead_letter_jobs ++ [s.dead_letter_job n node] := by
    rw [hs2, ← hsame1.new_dead_letter_jobs]
    rfl
  have hends2 : Ends s s2 := by
    refine .stays hexec2 ?_
    rw [hs2]
    exact (terminal_events_append_of_not rfl).trans hsame1.terminal_events
  by_cases hr : s.execution.status = .RUNNING
  · have hr2 : s2.execution.status = .RUNNING := by rw [hexec2, hr]
    have htr3 := transition_execution_status_of_status .FAILED hr2
    refine ⟨_, ?_, hsteps2.tail (.transition_execution _ _ htr3), hnodes2, hdead2,
      hends2.trans hsteps2 (.transition (.inr rfl) hr2), ?_⟩
    · simp only [handle_node_failure, hrow, if_neg hleft, htr1, bind, Except.bind, ← hs2,
        hexec2, if_pos hr, htr3, pure, Except.pure]
    · rw [if_pos hr, Session.stage_event_execution, hexec2, hsteps2.sameFrame.now]
  · refine ⟨s2, ?_, hsteps2, hnodes2, hdead2, hends2, by rw [if_neg hr, hexec2]⟩
    simp only [handle_node_failure, hrow, if_neg hleft, htr1, bind, Except.bind, ← hs2,
      hexec2, if_neg hr, pure, Except.pure]

theorem complete_node_error (hget : s.nodes.get? n = some node)
    (hrun : node.status = .RUNNING) (hres : result.success = true) {e : PyError}
    (hT : branch_targets d node_def n result.output = .error e) :
    complete_node s d node_def n node result = .error e := by
  obtain ⟨hkey, -⟩ := Table.get?_eq_some_iff.mp hget
  have hget1 : (s.set_node n { node with output_payload := some result.output }).nodes.get? n
      = some { node with output_payload := some result.output } := Table.get?_set_self _ hkey
  obtain ⟨s1, htr1, -, -⟩ := transition_node_status_total .SUCCEEDED hget1 hrun rfl
  simp only [complete_node, hres, if_true, htr1, bind, Except.bind,
    queue_downstream_nodes_error hT]

/-- **A successful result.** The node succeeds with the output, the downstream loops run
on the table in which it has succeeded, and the execution is closed if nothing is left.
The output is set before the transition, so the row that reaches SUCCEEDED has it, and the
loops look at a table in which this node is a SUCCEEDED parent. -/
theorem complete_node_success (hget : s.nodes.get? n = some node)
    (hrun : node.status = .RUNNING) (hres : result.success = true) {targets : List String}
    (hT : branch_targets d node_def n result.output = .ok targets)
    (hps : ∀ c ∈ d.child_ids n, ∀ p ∈ d.parent_ids c, p ∈ s.nodes.keys) :
    ∃ s' pubs, complete_node s d node_def n node result = .ok (s', pubs) ∧
      Session.Steps s s' ∧ s'.new_dead_letter_jobs = s.new_dead_letter_jobs ∧
      DownstreamEffect d n targets s.now
        (s.nodes.set n (node.succeed result.output s.now)) s'.nodes pubs ∧ Ends s s' ∧
      s'.execution = finalised s'.nodes s.execution s.now := by
  obtain ⟨hkey, -⟩ := Table.get?_eq_some_iff.mp hget
  have hsame0 : SameButNodes s
      (s.set_node n { node with output_payload := some result.output }) :=
    .payload (some result.output) node.error_message hget
  obtain ⟨s1, htr1, hsame1, hnodes1⟩ := transition_node_status_total .SUCCEEDED
    (s := s.set_node n { node with output_payload := some result.output })
    (Table.get?_set_self _ hkey) hrun rfl
  have hsame2 : SameButNodes s (node_succeeded s1 n) :=
    (hsame0.trans hsame1).trans (.log ..)
  have hframe2 := hsame2.steps.sameFrame
  have hnodes2 : (node_succeeded s1 n).nodes
      = s.nodes.set n (node.succeed result.output s.now) := by
    change s1.nodes = _
    rw [hnodes1]
    exact Table.set_set _ _ _ _
  obtain ⟨s3, pubs, hrun3, hsame3, heff⟩ := queue_downstream_nodes_spec (node_succeeded s1 n)
    d node_def n result hT (by rwa [hframe2.keys])
  have hsame := hsame2.trans hsame3
  obtain ⟨s4, hrun4, hsteps4, hnodes4, hdead4, hends4, hexec4⟩ := finalise_spec s3
  refine ⟨s4, pubs, ?_, hsame.steps.trans hsteps4, ?_, ?_, hsame.ends.trans hsame.steps hends4,
    ?_⟩
  · simp only [complete_node, hres, if_true, htr1, bind, Except.bind, hrun3, hrun4, pure,
      Except.pure]
  · rw [hdead4, hsame.new_dead_letter_jobs]
  · rw [hnodes4, ← hnodes2, ← hframe2.now]
    exact heff
  · rw [hexec4, hnodes4, hsame.execution, hsame.steps.sameFrame.now]

/-- The part of a failed completion before `_handle_node_failure`. -/
theorem fail_node_spec (hget : s.nodes.get? n = some node) (hrun : node.status = .RUNNING)
    (error : Option String) :
    ∃ s1, transition_node_status (s.set_node n { node with error_message := error }) n
        .RUNNING .FAILED = .ok s1 ∧ SameButNodes s (node_failed s1 n error) ∧
      (node_failed s1 n error).nodes = s.nodes.set n (node.fail error s.now) := by
  obtain ⟨hkey, -⟩ := Table.get?_eq_some_iff.mp hget
  have hsame0 : SameButNodes s (s.set_node n { node with error_message := error }) :=
    .payload node.output_payload error hget
  obtain ⟨s1, htr1, hsame1, hnodes1⟩ := transition_node_status_total .FAILED
    (s := s.set_node n { node with error_message := error })
    (Table.get?_set_self _ hkey) hrun rfl
  refine ⟨s1, htr1, (hsame0.trans hsame1).trans (.log ..), ?_⟩
  change s1.nodes = _
  rw [hnodes1]
  exact Table.set_set _ _ _ _

/-- **A failed result with attempts left** puts the node back in the queue and touches
nothing else. The node goes through FAILED and RETRYING to QUEUED in one transaction; of
this the row keeps the last status, one attempt more and the error message. -/
theorem complete_node_retry (hget : s.nodes.get? n = some node)
    (hrun : node.status = .RUNNING) (hres : result.success = false)
    (hleft : node.attempt < node.max_attempts) :
    ∃ s', complete_node s d node_def n node result = .ok (s', [n]) ∧
      Session.Steps s s' ∧ s'.new_dead_letter_jobs = s.new_dead_letter_jobs ∧
      s'.nodes = s.nodes.set n (node.retry result.error s.now) ∧ Ends s s' ∧
      s'.execution = s.execution := by
  obtain ⟨hkey, -⟩ := Table.get?_eq_some_iff.mp hget
  obtain ⟨s1, htr1, hsame1, hnodes1⟩ := fail_node_spec hget hrun result.error
  have hnow1 := hsame1.steps.sameFrame.now
  have hget1 : (node_failed s1 n result.error).nodes.get? n
      = some (node.fail result.error s.now) := by
    rw [hnodes1, Table.get?_set_self _ hkey]
  obtain ⟨s2, hrun2, hsame2, hnodes2⟩ := handle_node_failure_retry hget1 rfl hleft
  rw [hnodes1, hnow1, Table.set_set] at hnodes2
  have hsame := hsame1.trans hsame2
  obtain ⟨s3, hrun3, hsteps3, hnodes3, hdead3, hends3, hexec3⟩ := finalise_spec s2
  refine ⟨s3, ?_, hsame.steps.trans hsteps3, ?_, ?_, hsame.ends.trans hsame.steps hends3, ?_⟩
  · simp only [complete_node, hres, Bool.false_eq_true, if_false, htr1, bind, Except.bind,
      hrun2, hrun3, pure, Except.pure]
  · rw [hdead3, hsame.new_dead_letter_jobs]
  · rw [hnodes3, hnodes2]
    rfl
  · rw [hexec3, finalised_of_not_terminal (m := n), hsame.execution]
    · rw [hnodes2]
      exact hkey
    · rw [hnodes2, Table.row_set_self, NodeExecution.enter_status]
      decide

/-- **A failed result with no attempts left** dead-letters the node and fails an execution
whose loaded instance says RUNNING. The execution is failed in `_handle_node_failure`,
before the end of the transaction looks at it, so [`finalised`] finds it no longer
RUNNING. -/
theorem complete_node_dead (hget : s.nodes.get? n = some node)
    (hrun : node.status = .RUNNING) (hres : result.success = false)
    (hleft : ¬ node.attempt < node.max_attempts) :
    ∃ s', complete_node s d node_def n node result = .ok (s', []) ∧
      Session.Steps s s' ∧ s'.new_dead_letter_jobs = s.new_dead_letter_jobs
        ++ [s.dead_letter_job n (node.fail result.error s.now)] ∧
      s'.nodes = s.nodes.set n (node.dead_letter result.error s.now) ∧ Ends s s' ∧
      s'.execution = if s.execution.status = .RUNNING then s.execution.enter .FAILED s.now
        else s.execution := by
  obtain ⟨hkey, -⟩ := Table.get?_eq_some_iff.mp hget
  obtain ⟨s1, htr1, hsame1, hnodes1⟩ := fail_node_spec hget hrun result.error
  have hframe1 := hsame1.steps.sameFrame
  have hget1 : (node_failed s1 n result.error).nodes.get? n
      = some (node.fail result.error s.now) := by
    rw [hnodes1, Table.get?_set_self _ hkey]
  obtain ⟨s2, hrun2, hsteps2, hnodes2, hdead2, hends2, hexec2⟩ :=
    handle_node_failure_dead hget1 rfl hleft
  rw [hsame1.execution, hframe1.now] at hexec2
  have hjob : (node_failed s1 n result.error).dead_letter_job n (node.fail result.error s.now)
      = s.dead_letter_job n (node.fail result.error s.now) := by
    simp only [Session.dead_letter_job, Session.job, hframe1.execution_id, hsame1.execution]
  have hst2 : s2.execution.status ≠ .RUNNING := by
    rw [hexec2]
    split
    · simp
    · assumption
  obtain ⟨s3, hrun3, hsteps3, hnodes3, hdead3, hends3, hexec3⟩ := finalise_spec s2
  have hends := (hsame1.ends.trans hsame1.steps hends2).trans (hsame1.steps.trans hsteps2) hends3
  refine ⟨s3, ?_, (hsame1.steps.trans hsteps2).trans hsteps3, ?_, ?_, hends, ?_⟩
  · simp only [complete_node, hres, Bool.false_eq_true, if_false, htr1, bind, Except.bind,
      hrun2, hrun3, pure, Except.pure]
  · rw [hdead3, hdead2, hsame1.new_dead_letter_jobs, hjob]
  · rw [hnodes3, hnodes2, hnodes1, hframe1.now, Table.set_set]
    rfl
  · rw [hexec3, finalised_of_not_running _ hst2, hexec2]

end Complete

/-! ## The three parts of `process_job`, inverted -/

section Invert

variable {s s' : Session} {n : String}

/-- A claim that returns found no row or a terminal one. -/
theorem process_job_claim_returned (h : process_job_claim s n = .returned) :
    n ∉ s.nodes.keys ∨ (s.nodes.row n).status ∈ TERMINAL_NODE_STATUSES := by
  unfold process_job_claim at h
  split at h
  · rename_i hget
    exact .inl (Table.get?_eq_none_iff.mp hget)
  · rename_i node hget
    obtain ⟨-, rfl⟩ := Table.get?_eq_some_iff.mp hget
    split at h
    · exact .inr ‹_›
    · split at h <;> cases h

/-- **A claim that commits** found the node QUEUED and leaves it RUNNING. -/
theorem process_job_claim_committed (h : process_job_claim s n = .committed s') :
    n ∈ s.nodes.keys ∧ (s.nodes.row n).status = .QUEUED ∧ SameButNodes s s' ∧
      s'.nodes = s.nodes.set n ((s.nodes.row n).enter .RUNNING s.now) := by
  unfold process_job_claim at h
  split at h
  · cases h
  · split at h
    · cases h
    · split at h
      · cases h
      · rename_i s1 htr
        cases h
        obtain ⟨node, hget, hst, rfl⟩ := transition_node_status_ok htr
        obtain ⟨hkey, rfl⟩ := Table.get?_eq_some_iff.mp hget
        exact ⟨hkey, hst, (SameButNodes.transition rfl htr).trans (.log ..), rfl⟩

/-- A claim that raises found a row that is neither terminal nor QUEUED. -/
theorem process_job_claim_raised {e : PyError} (h : process_job_claim s n = .raised e) :
    n ∈ s.nodes.keys ∧ (s.nodes.row n).status ∉ TERMINAL_NODE_STATUSES ∧
      (s.nodes.row n).status ≠ .QUEUED := by
  unfold process_job_claim at h
  split at h
  · cases h
  · rename_i node hget
    obtain ⟨hkey, rfl⟩ := Table.get?_eq_some_iff.mp hget
    split at h
    · cases h
    · rename_i hterm
      refine ⟨hkey, hterm, fun hst => ?_⟩
      rw [transition_node_status_of_status .RUNNING hget hst] at h
      cases h

/-- What recovery writes into a row it takes over. -/
def NodeExecution.revert (node : NodeExecution) : NodeExecution :=
  if node.status = .RUNNING then { node with status := .QUEUED } else node

theorem process_recovered_job_missing {m : ℕ} (h : process_recovered_job s n m = .missing) :
    n ∉ s.nodes.keys := by
  unfold process_recovered_job at h
  split at h
  · rename_i hget
    exact Table.get?_eq_none_iff.mp hget
  · dsimp only at h
    split at h
    · cases h
    · split at h <;> cases h

theorem process_recovered_job_terminal {m : ℕ}
    (h : process_recovered_job s n m = .terminal s') :
    n ∈ s.nodes.keys ∧ (s.nodes.row n).status ∈ TERMINAL_NODE_STATUSES ∧
      s' = worker_recovered_job s n m := by
  unfold process_recovered_job at h
  split at h
  · cases h
  · rename_i node hget
    obtain ⟨hkey, rfl⟩ := Table.get?_eq_some_iff.mp hget
    dsimp only at h
    split at h
    · cases h
      exact ⟨hkey, ‹_›, rfl⟩
    · split at h <;> cases h

/-- A recovered job that goes on has logged the recovery and reverted the row. There is no
transition here and no new attempt: the status is assigned, so `attempt` stays as it was.
-/
theorem process_recovered_job_proceed {m : ℕ}
    (h : process_recovered_job s n m = .proceed s') :
    n ∈ s.nodes.keys ∧ (s.nodes.row n).status ∉ TERMINAL_NODE_STATUSES ∧
      SameButNodes (s.set_node n (s.nodes.row n).revert) s' ∧
      s'.nodes = s.nodes.set n (s.nodes.row n).revert := by
  have hlog : SameButNodes (s.set_node n (s.nodes.row n).revert)
      ((worker_recovered_job s n m).set_node n (s.nodes.row n).revert) :=
    SameButNodes.log ..
  unfold process_recovered_job at h
  split at h
  · cases h
  · rename_i node hget
    obtain ⟨hkey, rfl⟩ := Table.get?_eq_some_iff.mp hget
    dsimp only at h
    split at h
    · cases h
    · rename_i hterm
      refine ⟨hkey, hterm, ?_⟩
      split at h
      · rename_i hrun
        cases h
        rw [NodeExecution.revert, if_pos hrun] at hlog ⊢
        exact ⟨hlog, rfl⟩
      · rename_i hrun
        cases h
        rw [NodeExecution.revert, if_neg hrun] at hlog ⊢
        have hself : (worker_recovered_job s n m).set_node n (s.nodes.row n)
            = worker_recovered_job s n m :=
          congrArg (fun t => { worker_recovered_job s n m with nodes := t }) (Table.set_row _ _)
        rw [hself] at hlog
        exact ⟨hlog, (Table.set_row _ _).symm⟩

/-- The three ways a completion commits, for a session that holds the node rows
`nodes` and the execution instance `execution`. -/
inductive Completed (d : WorkflowDefinition) (node_def : Node) (n : String)
    (result : ExecutorResult) (nodes : Table String NodeExecution) (execution : Execution)
    (execution_id now : ℕ) (s' : Session) : List String → Prop
  /-- The node has succeeded and the loops over its descendants have run. -/
  | succeed (targets pubs : List String) (hkey : n ∈ nodes.keys)
      (hrun : (nodes.row n).status = .RUNNING) (hres : result.success = true)
      (hT : branch_targets d node_def n result.output = .ok targets)
      (heff : DownstreamEffect d n targets now
        (nodes.set n ((nodes.row n).succeed result.output now)) s'.nodes pubs)
      (hdead : s'.new_dead_letter_jobs = [])
      (hexec : s'.execution = finalised s'.nodes execution now) :
      Completed d node_def n result nodes execution execution_id now s' pubs
  /-- The node has failed and waits for its next attempt. -/
  | requeue (hkey : n ∈ nodes.keys) (hrun : (nodes.row n).status = .RUNNING)
      (hres : result.success = false)
      (hleft : (nodes.row n).attempt < (nodes.row n).max_attempts)
      (hnodes : s'.nodes = nodes.set n ((nodes.row n).retry result.error now))
      (hdead : s'.new_dead_letter_jobs = []) (hexec : s'.execution = execution) :
      Completed d node_def n result nodes execution execution_id now s' [n]
  /-- The node has failed for good. -/
  | bury (hkey : n ∈ nodes.keys) (hrun : (nodes.row n).status = .RUNNING)
      (hres : result.success = false)
      (hleft : ¬ (nodes.row n).attempt < (nodes.row n).max_attempts)
      (hnodes : s'.nodes = nodes.set n ((nodes.row n).dead_letter result.error now))
      (hdead : s'.new_dead_letter_jobs =
        [{ node_id := n
           redis_message_id := (nodes.row n).redis_message_id
           reason := dead_letter_reason result.error
           attempts := (nodes.row n).attempt
           payload := ⟨execution_id, execution.workflow_version_id, n, (nodes.row n).attempt⟩ }])
      (hexec : s'.execution = if execution.status = .RUNNING then execution.enter .FAILED now
        else execution) :
      Completed d node_def n result nodes execution execution_id now s' []

variable {d : WorkflowDefinition} {node_def : Node} {result : ExecutorResult}
  {rows : ExecutionRows} {execution : Execution} {e now : ℕ}

/-- **Inversion of the completion transaction.** If the transaction commits, the node was
RUNNING and one of the three cases above has happened; an output that picks a branch which
cannot be hashed raises, and then nothing is committed. -/
theorem process_job_complete_committed {pubs : List String}
    (hps : ∀ c ∈ d.child_ids n, ∀ p ∈ d.parent_ids c, p ∈ rows.nodes.keys)
    (h : process_job_complete (rows.refresh execution e now) d node_def n result
      = .committed (s', pubs)) :
    Session.Steps (rows.refresh execution e now) s' ∧ Ends (rows.refresh execution e now) s' ∧
      Completed d node_def n result rows.nodes execution e now s' pubs := by
  unfold process_job_complete at h
  split at h
  · cases h
  rename_i node hget
  obtain ⟨hkey, rfl⟩ := Table.get?_eq_some_iff.mp hget
  split at h
  · cases h
  rename_i hrun
  have hrun := not_not.mp hrun
  cases hres : result.success with
  | true =>
      cases hT : branch_targets d node_def n result.output with
      -- a branch that cannot be hashed raises, and nothing is committed
      | error e =>
          rw [complete_node_error hget hrun hres hT] at h
          cases h
      | ok targets =>
          obtain ⟨u, ps, hok, hsteps, hdead, heff, hends, hexec⟩ :=
            complete_node_success hget hrun hres hT hps
          rw [hok] at h
          cases h
          exact ⟨hsteps, hends, .succeed targets _ hkey hrun hres hT heff hdead hexec⟩
  | false =>
      by_cases hleft : (rows.nodes.row n).attempt < (rows.nodes.row n).max_attempts
      · obtain ⟨u, hok, hsteps, hdead, hnodes, hends, hexec⟩ :=
          complete_node_retry hget hrun hres hleft
        rw [hok] at h
        cases h
        exact ⟨hsteps, hends, .requeue hkey hrun hres hleft hnodes hdead hexec⟩
      · obtain ⟨u, hok, hsteps, hdead, hnodes, hends, hexec⟩ :=
          complete_node_dead hget hrun hres hleft
        rw [hok] at h
        cases h
        exact ⟨hsteps, hends, .bury hkey hrun hres hleft hnodes hdead hexec⟩

/-- A completion that returns found a node that is not RUNNING any more. -/
theorem process_job_complete_returned
    (h : process_job_complete s d node_def n result = .returned) :
    n ∈ s.nodes.keys ∧ (s.nodes.row n).status ≠ .RUNNING := by
  unfold process_job_complete at h
  split at h
  · cases h
  · rename_i node hget
    obtain ⟨hkey, rfl⟩ := Table.get?_eq_some_iff.mp hget
    split at h
    · exact ⟨hkey, ‹_›⟩
    · split at h <;> cases h

end Invert

/-! ## The rows of a completion -/

section Rows

variable {d : WorkflowDefinition} {node_def : Node} {n m : String} {result : ExecutorResult}
  {targets pubs : List String} {nodes before after : Table String NodeExecution}
  {execution : Execution} {e now : ℕ} {session : Session}

/-- The three ways a row fares in the loops of `_queue_downstream_nodes`. -/
theorem DownstreamEffect.cases
    (h : DownstreamEffect d n targets now before after pubs) (m : String) :
    (SkipSet d before targets m ∧ (before.row m).status = .PENDING ∧
      after.row m = (before.row m).enter .SKIPPED now) ∨
    (m ∈ pubs ∧ (before.row m).status = .PENDING ∧ ParentsSucceeded d before m ∧
      after.row m = (before.row m).enter .QUEUED now) ∨
    (¬ SkipSet d before targets m ∧ m ∉ pubs ∧ after.row m = before.row m) := by
  by_cases hs : SkipSet d before targets m
  · exact .inl ⟨hs, hs.isOpen.2, h.skipped m hs⟩
  · by_cases hp : m ∈ pubs
    · obtain ⟨-, hready, -⟩ := (h.mem_pubs m).mp hp
      exact .inr (.inl ⟨hp, hready.1.2, hready.2, h.queued m hp⟩)
    · exact .inr (.inr ⟨hs, hp, h.same m hs hp⟩)

/-- The loops touch PENDING rows only. -/
theorem DownstreamEffect.row_of_not_pending
    (h : DownstreamEffect d n targets now before after pubs) {m : String}
    (hm : (before.row m).status ≠ .PENDING) : after.row m = before.row m := by
  rcases h.cases m with ⟨-, hp, -⟩ | ⟨-, hp, -⟩ | ⟨-, -, heq⟩
  · exact absurd hp hm
  · exact absurd hp hm
  · exact heq

/-- The node that has just succeeded is not touched. -/
theorem DownstreamEffect.row_self {node : NodeExecution}
    (h : DownstreamEffect d n targets now (nodes.set n node) after pubs)
    (hst : node.status = .SUCCEEDED) : after.row n = node := by
  have hrow : (nodes.set n node).row n = node := Table.row_set_self ..
  rw [h.row_of_not_pending (by rw [hrow, hst]; simp), hrow]

/-- Neither is any other row that is past PENDING. -/
theorem DownstreamEffect.row_of_ne {node : NodeExecution}
    (h : DownstreamEffect d n targets now (nodes.set n node) after pubs) (hm : m ≠ n)
    (hst : (nodes.row m).status ≠ .PENDING) : after.row m = nodes.row m := by
  have hrow : (nodes.set n node).row m = nodes.row m := Table.row_set_of_ne _ _ hm
  rw [h.row_of_not_pending (by rwa [hrow]), hrow]

/-- A row that is SUCCEEDED or SKIPPED while the node is RUNNING stays as it
is. -/
theorem DownstreamEffect.row_of_settled {node : NodeExecution}
    (h : DownstreamEffect d n targets now (nodes.set n node) after pubs)
    (hrun : (nodes.row n).status = .RUNNING)
    (hm : (nodes.row m).status = .SUCCEEDED ∨ (nodes.row m).status = .SKIPPED) :
    after.row m = nodes.row m := by
  refine h.row_of_ne ?_ ?_
  · rintro rfl
    rw [hrun] at hm
    simp at hm
  · intro hpending
    rw [hpending] at hm
    simp at hm

/-- They make nothing succeed. -/
theorem DownstreamEffect.succeeded_iff
    (h : DownstreamEffect d n targets now before after pubs) (m : String) :
    (after.row m).status = .SUCCEEDED ↔ (before.row m).status = .SUCCEEDED := by
  rcases h.cases m with ⟨-, hp, heq⟩ | ⟨-, hp, -, heq⟩ | ⟨-, -, heq⟩
  · simp [heq, hp]
  · simp [heq, hp]
  · rw [heq]

/-- A completion finds its node RUNNING. -/
theorem Completed.running
    (h : Completed d node_def n result nodes execution e now session pubs) :
    n ∈ nodes.keys ∧ (nodes.row n).status = .RUNNING := by
  cases h with
  | succeed _ _ hkey hrun => exact ⟨hkey, hrun⟩
  | requeue hkey hrun => exact ⟨hkey, hrun⟩
  | bury hkey hrun => exact ⟨hkey, hrun⟩

/-- The row of its own node. -/
theorem Completed.own_row
    (h : Completed d node_def n result nodes execution e now session pubs) :
    session.nodes.row n = (nodes.row n).succeed result.output now ∨
      (session.nodes.row n = (nodes.row n).retry result.error now ∧ n ∈ pubs) ∨
      session.nodes.row n = (nodes.row n).dead_letter result.error now := by
  cases h with
  | succeed targets _ hkey hrun hres hT heff hdead hexec =>
      -- it is not PENDING any more when the loops run
      rw [heff.row_of_not_pending, Table.row_set_self]
      · exact .inl rfl
      · rw [Table.row_set_self, NodeExecution.succeed, NodeExecution.enter_status]
        simp
  | requeue hkey hrun hres hleft hnodes hdead hexec =>
      rw [hnodes, Table.row_set_self]
      exact .inr (.inl ⟨rfl, List.mem_singleton.mpr rfl⟩)
  | bury hkey hrun hres hleft hnodes hdead hexec =>
      rw [hnodes, Table.row_set_self]
      exact .inr (.inr rfl)

/-- Its other rows: only PENDING ones are written. -/
theorem Completed.level
    (h : Completed d node_def n result nodes execution e now session pubs) (hm : m ≠ n)
    (hst : (nodes.row m).status ≠ .PENDING) : session.nodes.row m = nodes.row m := by
  have other : ∀ {node : NodeExecution}, (nodes.set n node).row m = nodes.row m :=
    Table.row_set_of_ne _ _ hm
  cases h with
  | succeed targets _ hkey hrun hres hT heff hdead hexec =>
      refine (heff.row_of_not_pending ?_).trans other
      rwa [other]
  | requeue hkey hrun hres hleft hnodes hdead hexec => rw [hnodes, other]
  | bury hkey hrun hres hleft hnodes hdead hexec => rw [hnodes, other]

/-- So a node that is SUCCEEDED or SKIPPED is left alone. -/
theorem Completed.settled_row
    (h : Completed d node_def n result nodes execution e now session pubs)
    (hst : (nodes.row m).status = .SUCCEEDED ∨ (nodes.row m).status = .SKIPPED) :
    session.nodes.row m = nodes.row m := by
  refine h.level ?_ ?_
  · rintro rfl
    rw [h.running.2] at hst
    simp at hst
  · rcases hst with hst | hst <;> simp [hst]

/-- A completion leaves its node terminal or at its next attempt. -/
theorem Completed.moved_on
    (h : Completed d node_def n result nodes execution e now session pubs) :
    (session.nodes.row n).status ∈ TERMINAL_NODE_STATUSES ∨
      (session.nodes.row n).attempt = (nodes.row n).attempt + 1 := by
  rcases h.own_row with hrow | ⟨hrow, -⟩ | hrow
  · rw [hrow]
    exact .inl (by simp [NodeExecution.succeed, TERMINAL_NODE_STATUSES])
  · rw [hrow]
    exact .inr rfl
  · rw [hrow]
    exact .inl (by simp [NodeExecution.dead_letter, TERMINAL_NODE_STATUSES])

/-- After a completion its node is not RUNNING. -/
theorem Completed.not_running
    (h : Completed d node_def n result nodes execution e now session pubs) :
    (session.nodes.row n).status ≠ .RUNNING := by
  rcases h.own_row with hrow | ⟨hrow, -⟩ | hrow
  · simp [hrow, NodeExecution.succeed]
  · simp [hrow, NodeExecution.retry]
  · simp [hrow, NodeExecution.dead_letter]

end Rows

end EventFlow
