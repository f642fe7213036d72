/-
The order of `node_updated` events on the channel.

A session buffers its events and flushes them after its commit and, where it
has queued nodes, after it has published their messages. Another worker can
claim such a node and announce RUNNING before the one that queued it announces
QUEUED ([`not_events_in_order`]). [`events_in_order_of_announced`] is the
condition under which the channel follows the commits: a node is only moved on
while nobody still has an event of it to flush.

A unit of work ends its events about a node with the status and the attempt it
leaves behind, and every one of them moves the node forward
([`Session.Steps.tracks`]): an event means that the row has changed. So a step
stages events only about its own node and about nodes that were PENDING, and of
the latter no event has ever been staged. The invariant [`OrderInv`] says that
for each node one task holds all that is still to be flushed.
-/
import EventFlow.NodeLife
import EventFlow.Safety

set_option autoImplicit false

namespace EventFlow

open Transition

/-! ## The events about one node -/

/-- A `node_updated` event of node `n` of execution `e`. -/
def Envelope.about (e : ℕ) (n : String) (event : Envelope) : Bool :=
  match event.data with
  | .node_updated m _ _ => decide (event.execution_id = e ∧ m = n)
  | _ => false

/-- The `node_updated` events of one node, in order. -/
def node_events (e : ℕ) (n : String) (events : List Envelope) : List Envelope :=
  events.filter (Envelope.about e n)

section Events

variable {e : ℕ} {n : String} {events events' : List Envelope}

@[simp] theorem node_events_nil : node_events e n [] = [] := rfl

@[simp] theorem node_events_append :
    node_events e n (events ++ events') = node_events e n events ++ node_events e n events' :=
  List.filter_append ..

/-- Events of other executions are not about the node. -/
theorem node_events_of_ne {e' : ℕ} (h : ∀ event ∈ events, event.execution_id = e') (hne : e ≠ e') :
    node_events e n events = [] := by
  refine List.filter_eq_nil_iff.mpr fun event hevent => ?_
  simp only [Envelope.about]
  split
  · simp only [h event hevent, decide_eq_true_eq]
    rintro ⟨rfl, -⟩
    exact hne rfl
  · simp

end Events

/-! ## What a unit of work announces -/

/-- The place of a status within one attempt. -/
def NodeExecutionStatus.rank : NodeExecutionStatus → ℕ
  | .PENDING => 0
  | .QUEUED => 1
  | .RUNNING => 2
  | .SUCCEEDED => 3
  | .FAILED => 4
  | .RETRYING => 5
  | .DEAD_LETTERED => 6
  | .SKIPPED => 7

/-- How far a node has come: attempts count before statuses. -/
def NodeExecution.progress (node : NodeExecution) : ℕ := 8 * node.attempt + node.status.rank

/-- Every transition moves a node forward. -/
theorem NodeExecution.progress_lt_enter {node : NodeExecution} {to_status : NodeExecutionStatus}
    {now : ℕ} (hmove : node.status.moves to_status = true) :
    node.progress < (node.enter to_status now).progress := by
  unfold NodeExecution.progress
  rw [NodeExecution.enter_status, NodeExecution.enter_attempt]
  revert hmove
  cases node.status <;> cases to_status <;>
    simp [NodeExecutionStatus.moves, NodeExecutionStatus.rank] <;> omega

/-- Rows `before` and `after` of one node agree in status and attempt. -/
def NodeExecution.Level (before after : NodeExecution) : Prop :=
  after.status = before.status ∧ after.attempt = before.attempt

theorem NodeExecution.Level.progress {before after : NodeExecution} (h : before.Level after) :
    after.progress = before.progress := by
  unfold NodeExecution.progress
  rw [h.1, h.2]

/-- `events` about node `n` tell what becomes of its row: without an event it
stays level; otherwise the last event carries its new status and attempt, and it
has moved forward. -/
inductive Tells (n : String) (events : List Envelope) (before after : NodeExecution) : Prop
  | level (hnone : events = []) (hlevel : before.Level after)
  | forward (event : Envelope) (hlast : events.getLast? = some event)
      (hdata : event.data = .node_updated n after.status after.attempt)
      (hpend : after.status ≠ .PENDING) (hlt : before.progress < after.progress)

theorem Tells.append {n : String} {events events' : List Envelope}
    {before between after : NodeExecution} (h : Tells n events before between)
    (h' : Tells n events' between after) : Tells n (events ++ events') before after := by
  cases h with
  | level hnone hlevel =>
      rw [hnone, List.nil_append]
      cases h' with
      | level hnone' hlevel' =>
          exact .level hnone' ⟨hlevel'.1.trans hlevel.1, hlevel'.2.trans hlevel.2⟩
      | forward event hlast hdata hpend hlt =>
          exact .forward event hlast hdata hpend (hlevel.progress ▸ hlt)
  | forward event hlast hdata hpend hlt =>
      cases h' with
      | level hnone' hlevel' =>
          rw [hnone', List.append_nil]
          refine .forward event hlast ?_ ?_ ?_
          · rw [hdata, hlevel'.1, hlevel'.2]
          · rwa [hlevel'.1]
          · rwa [hlevel'.progress]
      | forward event' hlast' hdata' hpend' hlt' =>
          refine .forward event' ?_ hdata' hpend' (hlt.trans hlt')
          rw [List.getLast?_append, hlast', Option.some_or]

/-- A row that stays level has no events. -/
theorem Tells.eq_nil {n : String} {events : List Envelope} {before after : NodeExecution}
    (h : Tells n events before after) (hlevel : before.Level after) : events = [] := by
  cases h with
  | level hnone => exact hnone
  | forward event hlast hdata hpend hlt => exact absurd hlevel.progress (by omega)

/-- The events that take session `s` to `s'` tell what becomes of `n`. -/
def Session.Tracks (s s' : Session) (n : String) : Prop :=
  ∃ new, s'.ws_events = s.ws_events ++ new ∧
    Tells n (node_events s.execution_id n new) (s.nodes.row n) (s'.nodes.row n)

/-- One step of a session. A transition writes a row and stages the event that says so, in
this order, so the last event about the node carries what the row is now; the other steps
write no status and stage no such event. -/
theorem Session.Step.tracks {s s' : Session} (h : Session.Step s s') (n : String) :
    s.Tracks s' n := by
  cases h with
  | transition m from_status to_status hmove h =>
      obtain ⟨node, hget, hst, rfl⟩ := transition_node_status_ok h
      obtain ⟨-, rfl⟩ := Table.get?_eq_some_iff.mp hget
      refine ⟨_, rfl, ?_⟩
      by_cases hn : m = n
      · subst hn
        have hrow : (((s.set_node m ((s.nodes.row m).enter to_status s.now)).stage_event
            (.node_updated m to_status
              ((s.nodes.row m).enter to_status s.now).attempt)).nodes.row m)
              = (s.nodes.row m).enter to_status s.now := Table.row_set_self ..
        rw [hrow]
        refine .forward ⟨s.execution_id, s.now, .node_updated m to_status
          ((s.nodes.row m).enter to_status s.now).attempt⟩ ?_ ?_ ?_ ?_
        · simp [node_events, Envelope.about]
        · rw [NodeExecution.enter_status]
        · rw [NodeExecution.enter_status]
          rintro rfl
          cases from_status <;> cases hmove
        · exact NodeExecution.progress_lt_enter (hst ▸ hmove)
      · have hrow : (((s.set_node m ((s.nodes.row m).enter to_status s.now)).stage_event
            (.node_updated m to_status
              ((s.nodes.row m).enter to_status s.now).attempt)).nodes.row n)
              = s.nodes.row n := Table.row_set_of_ne _ _ (Ne.symm hn)
        rw [hrow]
        refine .level ?_ ⟨rfl, rfl⟩
        simp [node_events, Envelope.about, hn]
  | transition_execution from_status to_status h =>
      obtain ⟨-, rfl⟩ := transition_execution_status_ok h
      exact ⟨_, rfl, .level rfl ⟨rfl, rfl⟩⟩
  | payload m node output error hget =>
      obtain ⟨-, rfl⟩ := Table.get?_eq_some_iff.mp hget
      refine ⟨[], by simp, .level rfl ?_⟩
      by_cases hn : n = m
      · subst hn
        rw [Session.set_node_nodes, Table.row_set_self]
        exact ⟨rfl, rfl⟩
      · rw [Session.set_node_nodes, Table.row_set_of_ne _ _ hn]
        exact ⟨rfl, rfl⟩
  | log => exact ⟨_, rfl, .level rfl ⟨rfl, rfl⟩⟩
  | dead_letter => exact ⟨[], by simp, .level rfl ⟨rfl, rfl⟩⟩

/-- **The events of a unit of work.** By induction on the steps: events are only added
behind those there are, and progress only grows. -/
theorem Session.Steps.tracks {s s' : Session} (h : Session.Steps s s') (n : String) :
    s.Tracks s' n := by
  induction h with
  | refl => exact ⟨[], by simp, .level rfl ⟨rfl, rfl⟩⟩
  | tail hprev hstep ih =>
      obtain ⟨new, hnew, htells⟩ := ih
      obtain ⟨last, hlast, htells'⟩ := hstep.tracks n
      refine ⟨new ++ last, by rw [hlast, hnew, List.append_assoc], ?_⟩
      rw [Session.Steps.sameFrame hprev |>.execution_id] at htells'
      rw [node_events_append]
      exact htells.append htells'

/-! ## The invariant -/

/-- The events of a node that a task has still to flush. -/
def Sys.staged (s : Sys) (t e : ℕ) (n : String) : List Envelope :=
  node_events e n (s.tasks t).ws_events

/-- The last of a node's `events` carries its status and attempt; a node without
events has not been touched. -/
inductive Shown (n : String) (events : List Envelope) (node : NodeExecution) : Prop
  | untouched (hnone : events = []) (hst : node.status = .PENDING) (hatt : node.attempt = 0)
  | last (event : Envelope) (hlast : events.getLast? = some event)
      (hdata : event.data = .node_updated n node.status node.attempt)
      (hpend : node.status ≠ .PENDING)

theorem Shown.append {n : String} {events new : List Envelope} {before after : NodeExecution}
    (h : Shown n events before) (h' : Tells n new before after) :
    Shown n (events ++ new) after := by
  cases h' with
  | level hnone hlevel =>
      rw [hnone, List.append_nil]
      cases h with
      | untouched hnone hst hatt =>
          exact .untouched hnone (hlevel.1.trans hst) (hlevel.2.trans hatt)
      | last event hlast hdata hpend =>
          refine .last event hlast ?_ ?_
          · rw [hdata, hlevel.1, hlevel.2]
          · rwa [hlevel.1]
  | forward event hlast hdata hpend hlt =>
      refine .last event ?_ hdata hpend
      rw [List.getLast?_append, hlast, Option.some_or]

/-- A PENDING node has no events. -/
theorem Shown.eq_nil {n : String} {events : List Envelope} {node : NodeExecution}
    (h : Shown n events node) (hst : node.status = .PENDING) : events = [] := by
  cases h with
  | untouched hnone => exact hnone
  | last event hlast hdata hpend => exact absurd hst hpend

/-- The channel and what one task has still to flush are the committed events of
the node. -/
def Sys.Whole (s : Sys) (e : ℕ) (n : String) : Prop :=
  ∃ t, (∀ t', t' ≠ t → s.staged t' e n = []) ∧
    node_events e n s.channel ++ s.staged t e n = node_events e n s.committed

structure OrderInv (s : Sys) : Prop where
  fresh : ∀ event ∈ s.committed, event.execution_id < s.next_execution_id
  silent : ∀ t, (s.tasks t).phase.silent = true → (s.tasks t).ws_events = []
  publishing : ∀ t msg e owed sent, (s.tasks t).phase = .publishing msg e owed sent →
    ∀ event ∈ (s.tasks t).ws_events, event.execution_id = e
  /-- `Whole`, except that a task may drop events of a deleted execution. -/
  order : ∀ e n, ∃ t, (∀ t', t' ≠ t → s.staged t' e n = []) ∧
    node_events e n s.channel ++ s.staged t e n <+: node_events e n s.committed ∧
    (s.executions e ≠ none →
      node_events e n s.channel ++ s.staged t e n = node_events e n s.committed)
  shown : ∀ e rows n, s.executions e = some rows →
    Shown n (node_events e n s.committed) (rows.nodes.row n)

section Order

variable {s s' : Sys} {e : ℕ} {n : String}

theorem OrderInv.whole (h : OrderInv s) (he : s.executions e ≠ none) (n : String) :
    s.Whole e n := by
  obtain ⟨t, hothers, -, heq⟩ := h.order e n
  exact ⟨t, hothers, heq he⟩

/-- There are no events about an execution that does not exist yet. -/
theorem OrderInv.fresh_nil (h : OrderInv s) (he : s.next_execution_id ≤ e) (n : String) :
    node_events e n s.committed = [] := by
  refine List.filter_eq_nil_iff.mpr fun event hevent => ?_
  have hlt := h.fresh event hevent
  simp only [Envelope.about]
  split
  · simp only [decide_eq_true_eq, not_and]
    intro heq
    omega
  · simp

/-- Where nothing has been committed, nothing is staged either. -/
theorem OrderInv.whole_of_nil (h : OrderInv s) (hnil : node_events e n s.committed = []) :
    s.Whole e n := by
  obtain ⟨t, hothers, hpre, -⟩ := h.order e n
  rw [hnil, List.prefix_nil] at hpre
  exact ⟨t, hothers, hpre.trans hnil.symm⟩

/-- Where nothing has been committed, nobody has anything to flush. -/
theorem Sys.Whole.staged_nil (h : s.Whole e n) (hnil : node_events e n s.committed = []) (t : ℕ) :
    s.staged t e n = [] := by
  obtain ⟨t₀, hothers, heq⟩ := h
  rw [hnil, List.append_eq_nil_iff] at heq
  by_cases ht : t = t₀
  · exact ht ▸ heq.2
  · exact hothers t ht

/-- When nobody has anything to flush, the channel is complete. -/
theorem Sys.Whole.channel_eq (h : s.Whole e n) (hnil : ∀ t, s.staged t e n = []) :
    node_events e n s.channel = node_events e n s.committed := by
  obtain ⟨t₀, -, heq⟩ := h
  rwa [hnil t₀, List.append_nil] at heq

/-- A step that stages and flushes nothing. -/
theorem OrderInv.congr (h : OrderInv s) (hcommitted : s'.committed = s.committed)
    (hchannel : s'.channel = s.channel) (hnext : s'.next_execution_id = s.next_execution_id)
    (hevents : ∀ t, (s'.tasks t).ws_events = (s.tasks t).ws_events)
    (hphase : ∀ t, (s'.tasks t).phase = (s.tasks t).phase ∨ (s'.tasks t).phase.silent = false ∧
      ∀ msg e owed sent, (s'.tasks t).phase = .publishing msg e owed sent →
        ∃ owed' sent', (s.tasks t).phase = .publishing msg e owed' sent')
    (hrows : ∀ e rows', s'.executions e = some rows' → ∃ rows, s.executions e = some rows ∧
      ∀ n, (rows.nodes.row n).Level (rows'.nodes.row n)) : OrderInv s' := by
  have hstaged : ∀ t e n, s'.staged t e n = s.staged t e n := by
    intro t e n
    rw [Sys.staged, hevents, Sys.staged]
  refine ⟨?_, fun t hsilent => ?_, fun t msg e owed sent hpub => ?_, fun e n => ?_, ?_⟩
  · rw [hcommitted, hnext]
    exact h.fresh
  · rw [hevents]
    rcases hphase t with heq | ⟨hloud, -⟩
    · exact h.silent t (heq ▸ hsilent)
    · rw [hloud] at hsilent
      cases hsilent
  · rw [hevents]
    rcases hphase t with heq | ⟨-, hbefore⟩
    · exact h.publishing t msg e owed sent (heq ▸ hpub)
    · obtain ⟨owed', sent', hpub'⟩ := hbefore msg e owed sent hpub
      exact h.publishing t msg e owed' sent' hpub'
  · obtain ⟨t, hothers, hpre, heq⟩ := h.order e n
    refine ⟨t, fun t' ht' => ?_, ?_, fun hne => ?_⟩
    · rw [hstaged]
      exact hothers t' ht'
    · rwa [hchannel, hcommitted, hstaged]
    · rw [hchannel, hcommitted, hstaged]
      obtain ⟨rows', hrows'⟩ := Option.ne_none_iff_exists'.mp hne
      obtain ⟨rows, hr, -⟩ := hrows e rows' hrows'
      exact heq (by rw [hr]; simp)
  · intro e rows' n hrows'
    obtain ⟨rows, hr, hlevel⟩ := hrows e rows' hrows'
    have happ := (h.shown e rows n hr).append (.level rfl (hlevel n))
    rwa [hcommitted, ← List.append_nil (node_events e n s.committed)]

/-- A task goes on with the same events staged. -/
theorem OrderInv.move {t : ℕ} {phase phase' : Phase} {events : List Envelope} (h : OrderInv s)
    (hcommitted : s'.committed = s.committed) (hchannel : s'.channel = s.channel)
    (hnext : s'.next_execution_id = s.next_execution_id) (htask : s.tasks t = ⟨phase, events⟩)
    (htasks : s'.tasks = Function.update s.tasks t ⟨phase', events⟩)
    (hloud : phase'.silent = false)
    (hpub : ∀ msg e owed sent, phase' = .publishing msg e owed sent →
      ∃ owed' sent', phase = .publishing msg e owed' sent')
    (hrows : ∀ e rows', s'.executions e = some rows' → ∃ rows, s.executions e = some rows ∧
      ∀ n, (rows.nodes.row n).Level (rows'.nodes.row n)) : OrderInv s' := by
  refine h.congr hcommitted hchannel hnext (fun t' => ?_) (fun t' => ?_) hrows
  · by_cases ht : t' = t
    · rw [ht, htasks, Function.update_self, htask]
    · rw [htasks, Function.update_of_ne ht]
  · by_cases ht : t' = t
    · rw [ht, htasks, Function.update_self, htask]
      exact .inr ⟨hloud, hpub⟩
    · rw [htasks, Function.update_of_ne ht]
      exact .inl rfl

/-- Events about no node are committed and broadcast at once. -/
theorem OrderInv.log {extra : List Envelope} {rows rows' : ExecutionRows} (h : OrderInv s)
    (hids : ∀ event ∈ extra, event.execution_id < s.next_execution_id)
    (hquiet : ∀ e n, node_events e n extra = []) (hrows : s.executions e = some rows)
    (hnodes : rows'.nodes = rows.nodes) :
    OrderInv { s with
      executions := Function.update s.executions e (some rows')
      committed := s.committed ++ extra
      channel := s.channel ++ extra } := by
  refine ⟨fun event hevent => ?_, h.silent, h.publishing, fun e' n => ?_, ?_⟩
  · exact (List.mem_append.mp hevent).elim (h.fresh event) (hids event)
  · simp only [node_events_append, hquiet, List.append_nil]
    obtain ⟨t, hothers, hpre, heq⟩ := h.order e' n
    refine ⟨t, hothers, hpre, fun hne => heq ?_⟩
    by_cases he : e' = e
    · simp [he, hrows]
    · simpa only [Function.update_of_ne he] using hne
  · intro e' r n hr
    simp only [node_events_append, hquiet, List.append_nil]
    by_cases he : e' = e
    · subst he
      simp only [Function.update_self, Option.some.injEq] at hr
      rw [← hr, hnodes]
      exact h.shown e' rows n hrows
    · simp only [Function.update_of_ne he] at hr
      exact h.shown e' r n hr

/-- A task stops, or moves on, and drops what it had staged: nothing, or events about an
execution that has been deleted. What was to be announced about an execution that is
stored is not lost by this, which is why the condition on the dropped events is needed:
the channel must not end before the rows do. -/
theorem OrderInv.park {t : ℕ} {phase : Phase} (h : OrderInv s)
    (hcommitted : s'.committed = s.committed) (hchannel : s'.channel = s.channel)
    (hnext : s'.next_execution_id = s.next_execution_id) (hexec : s'.executions = s.executions)
    (htasks : s'.tasks = Function.update s.tasks t { phase })
    (hdrop : ∀ e n, s.staged t e n = [] ∨ s.executions e = none) : OrderInv s' := by
  have hself : s'.tasks t = { phase } := by rw [htasks, Function.update_self]
  have hother : ∀ t', t' ≠ t → s'.tasks t' = s.tasks t' := fun t' ht' => by
    rw [htasks, Function.update_of_ne ht']
  have hstaged : ∀ e n, s'.staged t e n = [] := fun e n => by rw [Sys.staged, hself]; rfl
  refine ⟨?_, fun t' hsilent => ?_, fun t' msg e owed sent hpub => ?_, fun e n => ?_, ?_⟩
  · rw [hcommitted, hnext]
    exact h.fresh
  · by_cases ht : t' = t
    · rw [ht, hself]
    · rw [hother t' ht] at hsilent ⊢
      exact h.silent t' hsilent
  · by_cases ht : t' = t
    · rw [ht, hself]
      simp
    · rw [hother t' ht] at hpub ⊢
      exact h.publishing t' msg e owed sent hpub
  · obtain ⟨t₀, hothers, hpre, heq⟩ := h.order e n
    rw [hchannel, hcommitted, hexec]
    by_cases ht : t₀ = t
    · subst ht
      refine ⟨t₀, fun t' ht' => ?_, ?_, fun hne => ?_⟩
      · rw [Sys.staged, hother t' ht']
        exact hothers t' ht'
      · rw [hstaged, List.append_nil]
        exact (List.prefix_append _ _).trans hpre
      · rw [hstaged, ← heq hne, (hdrop e n).resolve_right hne]
    · have hsame : s'.staged t₀ e n = s.staged t₀ e n := by
        rw [Sys.staged, hother t₀ ht, Sys.staged]
      refine ⟨t₀, fun t' ht' => ?_, by rwa [hsame], fun hne => by rw [hsame, heq hne]⟩
      by_cases ht'' : t' = t
      · rw [ht'']
        exact hstaged e n
      · rw [Sys.staged, hother t' ht'']
        exact hothers t' ht'
  · intro e rows n hrows
    rw [hexec] at hrows
    rw [hcommitted]
    exact h.shown e rows n hrows

/-- **A commit.** Task `t` with nothing staged commits `rows'` and stages `events`. They
end with what has become of each node, and are only about nodes about which nobody has
anything to flush. The new events become the whole backlog of their nodes: before the
commit nobody had any, so their order on the channel will be that of this one task. For
the other nodes nothing changes, and the task that has committed holds nothing of theirs.
-/
theorem OrderInv.commit {t : ℕ} {rows' : ExecutionRows} {events : List Envelope} {phase : Phase}
    (h : OrderInv s)
    (hcommitted : s'.committed = s.committed ++ events) (hchannel : s'.channel = s.channel)
    (hexec : s'.executions = Function.update s.executions e (some rows'))
    (htasks : s'.tasks = Function.update s.tasks t { phase, ws_events := events })
    (hnext : s.next_execution_id ≤ s'.next_execution_id) (he : e < s'.next_execution_id)
    (hsilent : (s.tasks t).phase.silent = true) (hloud : phase.silent = false)
    (hpub : ∀ msg e' owed sent, phase = .publishing msg e' owed sent → e' = e)
    (hevents : ∀ event ∈ events, event.execution_id = e) (hwhole : ∀ n, s.Whole e n)
    (hshown : ∀ n, Shown n (node_events e n s.committed ++ node_events e n events)
      (rows'.nodes.row n))
    (hclear : ∀ n, node_events e n events = [] ∨ ∀ t', s.staged t' e n = []) : OrderInv s' := by
  have hself : s'.tasks t = { phase, ws_events := events } := by rw [htasks, Function.update_self]
  have hother : ∀ t', t' ≠ t → s'.tasks t' = s.tasks t' := fun t' ht' => by
    rw [htasks, Function.update_of_ne ht']
  -- other executions get no events
  have hforeign : ∀ {e'}, e' ≠ e → ∀ n, node_events e' n events = [] := fun hne n =>
    node_events_of_ne hevents hne
  refine ⟨fun event hevent => ?_, fun t' hs => ?_, fun t' msg e' owed sent hp => ?_,
    fun e' n => ?_, fun e' rows n hrows => ?_⟩
  · rw [hcommitted] at hevent
    rcases List.mem_append.mp hevent with hevent | hevent
    · exact (h.fresh event hevent).trans_le hnext
    · rw [hevents event hevent]
      exact he
  · by_cases ht : t' = t
    · rw [ht, hself, hloud] at hs
      cases hs
    · rw [hother t' ht] at hs ⊢
      exact h.silent t' hs
  · by_cases ht : t' = t
    · rw [ht, hself] at hp ⊢
      rw [hpub msg e' owed sent hp]
      exact hevents
    · rw [hother t' ht] at hp ⊢
      exact h.publishing t' msg e' owed sent hp
  · have hstaged : ∀ t', t' ≠ t → s'.staged t' e' n = s.staged t' e' n := fun t' ht' => by
      rw [Sys.staged, hother t' ht', Sys.staged]
    have hstaged' : s'.staged t e' n = node_events e' n events := by rw [Sys.staged, hself]
    rw [hcommitted, hchannel, hexec, node_events_append]
    by_cases hnil : node_events e' n events = []
    · -- nothing is staged about this node: whoever had to flush still has to
      have hsame : ∀ t', s'.staged t' e' n = s.staged t' e' n := fun t' => by
        by_cases ht : t' = t
        · rw [ht, hstaged', hnil, Sys.staged, h.silent t hsilent, node_events_nil]
        · exact hstaged t' ht
      simp only [hsame, hnil, List.append_nil]
      by_cases hee : e' = e
      · subst hee
        obtain ⟨t₀, hothers, heq⟩ := hwhole n
        exact ⟨t₀, hothers, heq ▸ List.prefix_rfl, fun _ => heq⟩
      · rw [Function.update_of_ne hee]
        exact h.order e' n
    · -- everything about this node had been flushed
      have hee : e' = e := by
        by_contra hne
        exact hnil (hforeign hne n)
      subst hee
      have hclear' := (hclear n).resolve_left hnil
      have heq : node_events e' n s.channel ++ s'.staged t e' n
          = node_events e' n s.committed ++ node_events e' n events := by
        rw [hstaged', (hwhole n).channel_eq hclear']
      refine ⟨t, fun t' ht' => by rw [hstaged t' ht', hclear' t'], ?_, fun _ => heq⟩
      exact heq ▸ List.prefix_rfl
  · rw [hcommitted, node_events_append]
    rw [hexec] at hrows
    by_cases hee : e' = e
    · subst hee
      rw [Function.update_self, Option.some.injEq] at hrows
      subst hrows
      exact hshown n
    · rw [Function.update_of_ne hee] at hrows
      rw [hforeign hee, List.append_nil]
      exact h.shown e' rows n hrows

/-- A broadcast. The first event of a task moves to the end of the channel. Of the node it
is about, this task holds all the backlog, so what the channel has got is still a
beginning of what was committed. -/
theorem OrderInv.flush {t : ℕ} {phase : Phase} {event : Envelope} {events : List Envelope}
    (h : OrderInv s) (htask : s.tasks t = ⟨phase, event :: events⟩)
    (hphase : Sys.Flushes phase = true) :
    OrderInv { s with
      channel := s.channel ++ [event]
      tasks := Function.update s.tasks t ⟨phase, events⟩ } := by
  have hloud : phase.silent = false := by cases phase <;> first | rfl | cases hphase
  refine ⟨h.fresh, fun t' hs => ?_, fun t' msg e' owed sent hp => ?_, fun e n => ?_, h.shown⟩
  · by_cases ht : t' = t
    · subst ht
      simp only [Function.update_self, hloud] at hs
      cases hs
    · simp only [Function.update_of_ne ht] at hs ⊢
      exact h.silent t' hs
  · by_cases ht : t' = t
    · subst ht
      simp only [Function.update_self] at hp
      subst hp
      cases hphase
    · simp only [Function.update_of_ne ht] at hp ⊢
      exact h.publishing t' msg e' owed sent hp
  · have hstaged : ∀ t', t' ≠ t → Sys.staged { s with
        channel := s.channel ++ [event]
        tasks := Function.update s.tasks t ⟨phase, events⟩ } t' e n = s.staged t' e n :=
      fun t' ht' => by simp only [Sys.staged, Function.update_of_ne ht']
    have hself : Sys.staged { s with
        channel := s.channel ++ [event]
        tasks := Function.update s.tasks t ⟨phase, events⟩ } t e n = node_events e n events := by
      simp only [Sys.staged, Function.update_self]
    -- the event goes from the head of the task's list to the end of the channel
    have hbefore : s.staged t e n = node_events e n [event] ++ node_events e n events := by
      rw [← node_events_append, Sys.staged, htask]
      rfl
    obtain ⟨t₀, hothers, hpre, heq⟩ := h.order e n
    by_cases ht : t₀ = t
    · subst ht
      rw [hbefore, ← List.append_assoc, ← node_events_append] at hpre heq
      exact ⟨t₀, fun t' ht' => (hstaged t' ht').trans (hothers t' ht'), by rwa [hself],
        fun hne => by rw [hself]; exact heq hne⟩
    · have hnil := hothers t (Ne.symm ht)
      rw [hbefore, List.append_eq_nil_iff] at hnil
      refine ⟨t₀, fun t' ht' => ?_, ?_, fun hne => ?_⟩
      · by_cases ht'' : t' = t
        · rw [ht'', hself, hnil.2]
        · rw [hstaged t' ht'', hothers t' ht']
      · rw [hstaged t₀ ht, node_events_append, hnil.1, List.append_nil]
        exact hpre
      · rw [hstaged t₀ ht, node_events_append, hnil.1, List.append_nil]
        exact heq hne

end Order

/-! ## Announced runs -/

/-- The node that an action is about to move on: the one it claims, the RUNNING
one it completes, or the dead-lettered one it retries. -/
def Sys.subject (s : Sys) : Action → Option (ℕ × String)
  | .complete t _ =>
    match (s.tasks t).phase with
    | .invoked _ context _ =>
      if s.node_status context.execution_id context.node_id = some .RUNNING then
        some (context.execution_id, context.node_id)
      else none
    | _ => none
  | .retry _ e n _ => if s.node_status e n = some .DEAD_LETTERED then some (e, n) else none
  | .claim t m => (s.claims (.claim t m)).map fun c => (c.1, c.2.1)
  | .recover_claim t m => (s.claims (.recover_claim t m)).map fun c => (c.1, c.2.1)
  | _ => none

/-- Nobody has an event to flush about the node that `a` moves on, and no task
dies with an event to flush. -/
structure Sys.Announced (s : Sys) (a : Action) : Prop where
  atomic : a.atomic = true
  alive : ∀ t, a = .crash t ∨ a = .publish_error t → ∀ e n, s.staged t e n = []
  clear : ∀ e n, s.subject a = some (e, n) → ∀ t, s.staged t e n = []

section Effect

variable {env : Env} {s s' : Sys} {a : Action} {e : ℕ}

/-- The events of a session that starts from current rows. -/
theorem tells_of_steps {rows : ExecutionRows} {now : ℕ} {execution : Execution} {session : Session}
    (h : Session.Steps (rows.refresh execution e now) session) (n : String) :
    Tells n (node_events e n session.ws_events) (rows.nodes.row n) (session.nodes.row n) := by
  obtain ⟨new, hnew, htells⟩ := h.tracks n
  rw [hnew]
  exact htells

/-- They are about its execution. -/
theorem events_of_steps {loaded session : Session} (h : Session.Steps loaded session)
    (hnone : loaded.ws_events = []) :
    ∀ event ∈ session.ws_events, event.execution_id = loaded.execution_id := by
  obtain ⟨new, hnew, hid⟩ := h.ws_events
  rw [hnew, hnone]
  exact hid

/-- A unit of work that leaves the rows alone says nothing about nodes. -/
theorem node_events_of_same {rows : ExecutionRows} {now : ℕ} {session : Session}
    (h : Session.Steps (rows.load e now) session) (hnodes : session.nodes = rows.nodes)
    (e' : ℕ) (n : String) : node_events e' n session.ws_events = [] := by
  by_cases he : e' = e
  · subst he
    exact (tells_of_steps h n).eq_nil (by rw [hnodes]; exact ⟨rfl, rfl⟩)
  · exact node_events_of_ne (events_of_steps h rfl) he

/-- A claim says nothing about the other nodes. -/
theorem node_events_of_claim {rows : ExecutionRows} {now : ℕ} {session : Session}
    {node node' : NodeExecution} {m n : String}
    (h : Session.Steps ((rows.load e now).set_node m node) session)
    (hnodes : session.nodes = rows.nodes.set m node') (hn : n ≠ m) :
    node_events e n session.ws_events = [] := by
  obtain ⟨new, hnew, htells⟩ := h.tracks n
  rw [hnew]
  refine htells.eq_nil ?_
  rw [hnodes, Session.set_node_nodes, Table.row_set_of_ne _ _ hn, Table.row_set_of_ne _ _ hn]
  exact ⟨rfl, rfl⟩

/-- A commit to an execution that is stored. Nothing has ever been said about a
PENDING node, so only the others have to be clear. -/
theorem OrderInv.commit_stored {t : ℕ} {rows rows' : ExecutionRows} {events : List Envelope}
    {phase : Phase} (h : OrderInv s) (ht : s.Typed env) (hrows : s.executions e = some rows)
    (hsilent : (s.tasks t).phase.silent = true) (hloud : phase.silent = false)
    (hpub : ∀ msg e' owed sent, phase = .publishing msg e' owed sent → e' = e)
    (hevents : ∀ event ∈ events, event.execution_id = e)
    (hshown : ∀ n, Shown n (node_events e n s.committed ++ node_events e n events)
      (rows'.nodes.row n))
    (hclear : ∀ n, (rows.nodes.row n).status ≠ .PENDING →
      node_events e n events = [] ∨ ∀ t', s.staged t' e n = []) :
    OrderInv (s.commit t e rows' events phase) := by
  have hne : s.executions e ≠ none := by simp [hrows]
  refine h.commit rfl rfl rfl rfl le_rfl (ht.lt hrows) hsilent hloud hpub hevents
    (h.whole hne) hshown fun n => ?_
  by_cases hst : (rows.nodes.row n).status = .PENDING
  · have hnil := (h.shown e rows n hrows).eq_nil hst
    exact .inr fun t' => (h.whole hne n).staged_nil hnil t'
  · exact hclear n hst

/-- A claim announces RUNNING. The row may have been RUNNING before: the revert
of a recovery is not announced. -/
theorem shown_of_claim {rows : ExecutionRows} {now : ℕ} {session : Session} {n : String}
    {events : List Envelope}
    (h : Session.Steps ((rows.load e now).set_node n (rows.nodes.row n).revert) session)
    (hst : (rows.nodes.row n).status = .QUEUED ∨ (rows.nodes.row n).status = .RUNNING)
    (hrow : session.nodes.row n = (rows.nodes.row n).enter .RUNNING now) :
    Shown n (events ++ node_events e n session.ws_events)
      ((rows.nodes.row n).enter .RUNNING now) := by
  obtain ⟨new, hnew, htells⟩ := h.tracks n
  rw [Session.set_node_nodes, Table.row_set_self, hrow] at htells
  have hnew : session.ws_events = new := hnew
  rw [hnew]
  cases htells with
  | level hnone hlevel =>
      have hq : (rows.nodes.row n).revert.status = .QUEUED := by
        unfold NodeExecution.revert
        rcases hst with hst | hst <;> simp [hst]
      have hrun := hlevel.1
      rw [NodeExecution.enter_status, hq] at hrun
      cases hrun
  | forward event hlast hdata hpend hlt =>
      refine .last event ?_ hdata hpend
      rw [List.getLast?_append]
      exact (congrArg (Option.or · _) hlast).trans (Option.some_or ..)

/-- A commit that starts a node of which nothing is staged. -/
theorem OrderInv.claim {t m : ℕ} {job : Job} {rows : ExecutionRows} {session : Session}
    {k now : ℕ} {logs : List ExecutionLog} (h : OrderInv s) (ht : s.Typed env)
    (hrows : s.executions job.execution_id = some rows)
    (hsilent : (s.tasks t).phase.silent = true)
    (hst : (rows.nodes.row job.node_id).status = .QUEUED ∨
      (rows.nodes.row job.node_id).status = .RUNNING)
    (hsteps : Session.Steps ((rows.load job.execution_id now).set_node job.node_id
      (rows.nodes.row job.node_id).revert) session)
    (hnodes : session.nodes = rows.nodes.set job.node_id
      ((rows.nodes.row job.node_id).enter .RUNNING now))
    (hclear : ∀ t', s.staged t' job.execution_id job.node_id = []) :
    OrderInv (s.commit t job.execution_id
      { rows with
        nodes := rows.nodes.set job.node_id ((rows.nodes.row job.node_id).enter .RUNNING now)
        logs := logs }
      session.ws_events (.claimed m job k)) := by
  have hnil : ∀ n, n ≠ job.node_id → node_events job.execution_id n session.ws_events = [] :=
    fun n hn => node_events_of_claim hsteps hnodes hn
  refine h.commit_stored ht hrows hsilent rfl (fun _ _ _ _ hp => by cases hp)
    (events_of_steps hsteps rfl) (fun n => ?_) fun n _ => ?_
  · by_cases hn : n = job.node_id
    · subst hn
      rw [Table.row_set_self]
      exact shown_of_claim hsteps hst (by rw [hnodes, Table.row_set_self])
    · rw [hnil n hn, List.append_nil, Table.row_set_of_ne _ _ hn]
      exact h.shown _ rows n hrows
  · by_cases hn : n = job.node_id
    · subst hn
      exact .inr hclear
    · exact .inl (hnil n hn)

/-- **One step.** Where a step stages events, they are about its own node and about nodes
that were PENDING. Of the former nobody has anything to flush, by the condition; of the
latter nothing has ever been staged, since an event about a node comes with a change of
its row ([`Session.Steps.tracks`]). So [`OrderInv.commit`] applies. The steps that stage
nothing flush an event, drop what is of no consequence, or leave the events alone. -/
theorem OrderInv.effect (h : OrderInv s) (ht : s.Typed env) (heff : Effect env s a s')
    (hann : s.Announced a) : OrderInv s' := by
  have silent_of_idle : ∀ {t}, (s.tasks t).phase = .idle → (s.tasks t).phase.silent = true :=
    fun hidle => by rw [hidle]; rfl
  have staged_of_silent : ∀ {t}, (s.tasks t).phase.silent = true → ∀ e n, s.staged t e n = [] :=
    fun hs e n => by rw [Sys.staged, h.silent _ hs, node_events_nil]
  cases heff with
  | refused => exact h
  -- a start, a manual retry and a claim are made by an idle task, which has nothing staged
  | @start t vid owner input session pubs hidle hok =>
      obtain ⟨version, -, -, hsteps, -⟩ := start_execution_spec hok
      have hnil := h.fresh_nil (le_refl s.next_execution_id)
      have hwhole := fun n => h.whole_of_nil (hnil n)
      refine h.commit rfl rfl rfl rfl (Nat.le_succ _) (Nat.lt_succ_self _) (silent_of_idle hidle)
        rfl (fun _ _ _ _ hp => by cases hp; rfl) (events_of_steps hsteps rfl) hwhole (fun n => ?_)
        fun n => .inr ((hwhole n).staged_nil (hnil n))
      obtain ⟨new, hnew, htells⟩ := hsteps.tracks n
      have hnew : session.ws_events = new := hnew
      rw [hnil n, hnew]
      exact Shown.append (.untouched rfl (initial_node_status ..) (initial_node_attempt ..)) htells
  | @retry t e owner n rows session hidle hrows hkey hst hsame hnodes =>
      have htells := tells_of_steps hsame.steps
      simp only [hnodes] at htells
      refine h.commit_stored ht hrows (silent_of_idle hidle) rfl
        (fun _ _ _ _ hp => by cases hp; rfl) (events_of_steps hsame.steps rfl)
        (fun m => (h.shown e rows m hrows).append (htells m)) fun m _ => ?_
      by_cases hm : m = n
      · subst hm
        -- its own node: the condition says that nobody else has anything to tell of it
        refine .inr (hann.clear e m (if_pos ?_))
        simp [Sys.node_status, hrows, Table.get?_of_mem hkey, hst]
      · refine .inl ((htells m).eq_nil ?_)
        rw [Table.row_set_of_ne _ _ hm]
        exact ⟨rfl, rfl⟩
  | @delete e owner =>
      refine h.congr rfl rfl rfl (fun _ => rfl) (fun _ => .inl rfl) fun e' rows' hrows' => ?_
      by_cases he : e' = e
      · subst he
        simp at hrows'
      · simp only [Function.update_of_ne he] at hrows'
        exact ⟨rows', hrows', fun _ => ⟨rfl, rfl⟩⟩
  | @discard _ t m entry ha hidle hentry hgone =>
      exact h.park rfl rfl rfl rfl rfl fun e n => .inl (staged_of_silent (silent_of_idle hidle) e n)
  | @discard_logged _ t m entry rows session ha hidle hentry hrows hst hsame hnodes =>
      have hnil := node_events_of_same hsame.steps hnodes entry.job.execution_id
      refine h.commit_stored ht hrows (silent_of_idle hidle) rfl (fun _ _ _ _ hp => by cases hp)
        (events_of_steps hsame.steps rfl) (fun n => ?_) fun n _ => .inl (hnil n)
      rw [hnil, List.append_nil]
      exact h.shown _ rows n hrows
  | @claim _ t m entry rows session ha hidle hentry hrows hkey hsame hnodes =>
      have hclaims := claims_of_claim ha hentry hrows
      refine h.claim ht hrows (silent_of_idle hidle) (by tauto) hsame.steps hnodes
        (hann.clear _ _ ?_)
      rcases ha with ⟨rfl, -⟩ | ⟨rfl, -⟩ <;> simp only [Sys.subject, hclaims, Option.map_some]
  | @recover_raised t m entry rows session hidle hentry hrows hsame hnodes =>
      have hlogged : OrderInv { s with
          executions := Function.update s.executions entry.job.execution_id
            (some { rows with logs := rows.logs ++ session.new_logs })
          committed := s.committed ++ session.ws_events
          channel := s.channel ++ session.ws_events } :=
        h.log (fun event hevent => by
          rw [events_of_steps hsame.steps rfl event hevent]
          exact ht.lt hrows) (node_events_of_same hsame.steps hnodes) hrows rfl
      exact hlogged.park rfl rfl rfl rfl rfl fun e n =>
        .inl (staged_of_silent (silent_of_idle hidle) e n)
  | recover => cases hann.atomic
  | reclaim => cases hann.atomic
  | reclaim_discard => cases hann.atomic
  | @stop _ t ha hta =>
      refine h.park rfl rfl rfl rfl rfl fun e n => ?_
      -- a task that stops drops what it has staged; the condition is that there is nothing
      rcases ha with ⟨-, hsilent | hnone | ⟨msg, e₀, sent, hphase, hgone⟩⟩ | ha | ha
      · exact .inl (staged_of_silent hsilent e n)
      · exact .inl (by rw [Sys.staged, hnone, node_events_nil])
      · by_cases he : e = e₀
        · exact .inr (he ▸ hgone)
        · exact .inl (node_events_of_ne (h.publishing t msg e₀ [] sent hphase) he)
      · exact .inl (hann.alive t (.inl ha) e n)
      · exact .inl (hann.alive t (.inr ha) e n)
  | @invoke t m attempt job rows d node_def htask hrows hlookup =>
      exact h.park rfl rfl rfl rfl rfl fun e n => .inl (by rw [Sys.staged, htask]; rfl)
  | @stale t m result context execution rows hphase hrows hst =>
      exact h.park rfl rfl rfl rfl rfl fun e n =>
        .inl (staged_of_silent (by rw [hphase]; rfl) e n)
  | @complete t m result context execution rows d node_def session pubs hphase hrows hlookup
      hsteps hends hdone =>
      refine h.commit_stored ht hrows (by rw [hphase]; rfl) rfl (fun _ _ _ _ hp => by cases hp; rfl)
        (events_of_steps hsteps rfl)
        (fun n => (h.shown _ rows n hrows).append (tells_of_steps hsteps n)) fun n hst => ?_
      -- the other nodes that it tells of were PENDING before, so nothing is staged of them
      by_cases hn : n = context.node_id
      · subst hn
        obtain ⟨hkey, hrun⟩ := hdone.running
        refine .inr (hann.clear _ _ ?_)
        simp [Sys.subject, hphase, Sys.node_status, hrows, Table.get?_of_mem hkey, hrun]
      · refine .inl ((tells_of_steps hsteps n).eq_nil ?_)
        rw [hdone.level hn hst]
        exact ⟨rfl, rfl⟩
  | publish htask =>
      exact h.move rfl rfl rfl htask rfl rfl (fun _ _ _ _ hp => by cases hp; exact ⟨_, _, rfl⟩)
        fun e' rows' hrows' => ⟨rows', hrows', fun _ => ⟨rfl, rfl⟩⟩
  | @finish t e msg sent events rows htask hrows =>
      refine h.move rfl rfl rfl htask rfl rfl (fun _ _ _ _ hp => by cases hp)
        fun e' rows' hrows' => ?_
      by_cases he : e' = e
      · subst he
        simp only [Function.update_self, Option.some.injEq] at hrows'
        subst hrows'
        refine ⟨rows, hrows, fun n => ?_⟩
        obtain ⟨id, hid⟩ := row_set_message_ids rows.nodes sent n
        rw [hid]
        exact ⟨rfl, rfl⟩
      · simp only [Function.update_of_ne he] at hrows'
        exact ⟨rows', hrows', fun _ => ⟨rfl, rfl⟩⟩
  | finish_gone htask hrows =>
      exact h.move rfl rfl rfl htask rfl rfl (fun _ _ _ _ hp => by cases hp)
        fun e' rows' hrows' => ⟨rows', hrows', fun _ => ⟨rfl, rfl⟩⟩
  | flush htask hphase => exact h.flush htask hphase
  | ack htask =>
      exact h.park rfl rfl rfl rfl rfl fun e n => .inl (by rw [Sys.staged, htask]; rfl)
  | reply htask =>
      exact h.park rfl rfl rfl rfl rfl fun e n => .inl (by rw [Sys.staged, htask]; rfl)

end Effect

/-! ## Event order -/

/-- The events about each node are on the channel in the order of the commits,
and once there is none left to flush the last one carries the node's committed
status and attempt; a node without events is untouched. -/
def Sys.EventsInOrder (s : Sys) : Prop :=
  (∀ e n, (node_events e n s.channel).Sublist (node_events e n s.committed)) ∧
    ∀ e rows n, s.executions e = some rows → n ∈ rows.nodes.keys →
      (∀ t, s.staged t e n = []) →
      match (node_events e n s.channel).getLast? with
      | some event =>
        event.data = .node_updated n (rows.nodes.row n).status (rows.nodes.row n).attempt
      | none => (rows.nodes.row n).status = .PENDING ∧ (rows.nodes.row n).attempt = 0

/-- **Event order follows commit order**, in every run in which a node is only moved on
while nobody has an event of it to flush. [`OrderInv`] names for each node one task that
holds its whole backlog. What the channel has got of the node is then a beginning of what
was committed about it, in the same order; and once there is nothing left to flush, it is
all of it, so the last event on the channel is the present row. -/
theorem events_in_order_of_announced (env : Env) (s : Sys)
    (hrun : Reaches (Sys.step env) Sys.Announced Sys.init s) : s.EventsInOrder := by
  have hinv : OrderInv s := by
    refine Sys.invariant_of_effect OrderInv hrun typed_init ?_ ?_
      fun u a v ht hu hann heff => hu.effect ht heff hann
    · refine ⟨?_, fun _ _ => rfl, fun _ _ _ _ _ hp => (by cases hp), fun e n => ?_, ?_⟩
      · simp [Sys.init]
      · exact ⟨0, fun _ _ => rfl, List.prefix_rfl, fun _ => rfl⟩
      · simp [Sys.init]
    · intro u clock h
      exact ⟨h.fresh, h.silent, h.publishing, h.order, h.shown⟩
  refine ⟨fun e n => ?_, fun e rows n hrows _ hflushed => ?_⟩
  · obtain ⟨t, -, hpre, -⟩ := hinv.order e n
    exact (List.sublist_append_left _ _).trans hpre.sublist
  · have hne : s.executions e ≠ none := by simp [hrows]
    rw [(hinv.whole hne n).channel_eq hflushed]
    cases hinv.shown e rows n hrows with
    | untouched hnone hst hatt =>
        rw [hnone]
        exact ⟨hst, hatt⟩
    | last event hlast hdata hpend =>
        rw [hlast]
        exact hdata

/-- `Announced`, looked at for the first `bound` tasks and for runs in which
nobody dies. -/
def Sys.announced (bound : ℕ) (s : Sys) (a : Action) : Bool :=
  a.atomic && (match a with
    | .crash _ => false
    | .publish_error _ => false
    | _ => true) &&
  match s.subject a with
  | some (e, n) => (List.range bound).all fun t => (s.staged t e n).isEmpty
  | none => true

theorem Sys.announced_of_check {bound : ℕ} {s : Sys} {a : Action} (hidle : s.IdleFrom bound)
    (h : s.announced bound a = true) : s.Announced a := by
  simp only [Sys.announced, Bool.and_eq_true] at h
  obtain ⟨⟨hatomic, halive⟩, hclear⟩ := h
  refine ⟨hatomic, fun t ha => ?_, fun e n hsub t => ?_⟩
  · rcases ha with rfl | rfl <;> cases halive
  · rw [hsub] at hclear
    by_cases ht : t < bound
    · exact List.isEmpty_iff.mp (List.all_eq_true.mp hclear t (List.mem_range.mpr ht))
    · rw [Sys.staged, hidle t (not_lt.mp ht)]
      rfl

/-- Worker 1 completes `a` and publishes `b`; worker 2 claims `b` and announces
RUNNING before worker 1 announces QUEUED. -/
def late_run : List Action :=
  [.start 0 0 none 0, .publish 0, .finish 0, .flush 0, .flush 0, .flush 0, .claim 1 0, .flush 1,
    .flush 1, .invoke 1, .complete 1 succeeded, .publish 1, .claim 2 1, .flush 2, .finish 1,
    .flush 1, .flush 1, .flush 1]

/-- When the events about node `b` were broadcast, and when they were staged. -/
def times_of_b (s : Sys) : List ℕ × List ℕ :=
  ((node_events 0 "b" s.channel).map Envelope.timestamp,
    (node_events 0 "b" s.committed).map Envelope.timestamp)

/-- RUNNING overtakes QUEUED. -/
theorem not_events_in_order : ¬ ∀ (env : Env) (s : Sys),
    Reaches (Sys.step env) (fun _ a => a.atomic = true) Sys.init s → s.EventsInOrder := by
  intro h
  have htimes : (atomic_run chain late_run).map times_of_b = some ([12, 10], [10, 12]) := by
    decide +kernel
  obtain ⟨s, hs, htimes⟩ := Option.map_eq_some_iff.mp htimes
  rw [times_of_b, Prod.mk.injEq] at htimes
  have hsub := ((h (env_of chain) s (atomicRun_of_run hs)).1 0 "b").map Envelope.timestamp
  rw [htimes.1, htimes.2] at hsub
  exact absurd hsub (by decide)

/-- The same work with the flush of worker 1 in front of the claim. -/
theorem events_in_order_of_announced_chain :
    ∃ s : Sys, times_of_b s = ([10], [10, 16]) ∧ s.EventsInOrder := by
  have htimes : (run (restrict (Sys.step (env_of chain))
      fun s a => a.below 3 && s.announced 3 a) Sys.init
      [.start 0 0 none 0, .publish 0, .finish 0, .flush 0, .flush 0, .flush 0, .claim 1 0,
        .flush 1, .flush 1, .invoke 1, .complete 1 succeeded, .publish 1, .finish 1, .flush 1,
        .flush 1, .flush 1, .claim 2 1]).map times_of_b = some ([10], [10, 16]) := by
    decide +kernel
  obtain ⟨s, hs, htimes⟩ := Option.map_eq_some_iff.mp htimes
  exact ⟨s, htimes, events_in_order_of_announced (env_of chain) s
    (reaches_of_checked_run (fun _ _ => Sys.announced_of_check) hs)⟩

end EventFlow
