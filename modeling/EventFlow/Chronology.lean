/-
When things happened: the time columns of an execution.

Every transition notes the time in one column of its row, and a later one of the
same kind writes over it. [`Stamped`] is what a step does to the columns of one
row, [`Dated`] what they are in a given status, and [`TimesInv`] relates those of
different rows.

The times are readings of one clock that does not go back. That a child is queued
after its parents have finished rests on the join test and on a node that has
succeeded being left alone; that a SUCCEEDED execution ends after its nodes rests
on its being final.
-/
import EventFlow.Safety
import EventFlow.Library.TaskTimes

set_option autoImplicit false

namespace EventFlow

open Transition TaskTimes

/-- The time columns of a row. -/
def NodeExecution.times (node : NodeExecution) : Times where
  queued := node.queued_at
  started := node.started_at
  finished := node.finished_at

/-- The time columns of a row, given its status, the start of its execution and
the present. -/
structure Dated (start now : ℕ) (node : NodeExecution) : Prop where
  within : ∀ t, node.times.At t → start ≤ t ∧ t ≤ now
  waiting : node.status = .PENDING → node.times = {}
  skipped : node.status = .SKIPPED → ∃ t, node.times = { finished := some t }
  queued : node.status = .QUEUED → node.times.queued.isSome = true
  running : node.status = .RUNNING → Before node.times.queued node.times.started
  ended : node.status = .SUCCEEDED ∨ node.status = .DEAD_LETTERED → node.times.Ran

/-! ## One row -/

/-- What a step does to the status and the time columns of a row. -/
inductive Stamped (now : ℕ) (old new : NodeExecution) : Prop
  | same (hst : new.status = old.status) (htimes : new.times = old.times) : Stamped now old new
  | run (hold : old.status = .QUEUED ∨ old.status = .RUNNING) (hst : new.status = .RUNNING)
      (htimes : new.times = { old.times with started := some now }) : Stamped now old new
  /-- A failed attempt is finished, and the next one is queued. -/
  | queue (hold : old.status = .PENDING ∨ old.status = .RUNNING ∨ old.status = .DEAD_LETTERED)
      (hst : new.status = .QUEUED) (finished : Option ℕ)
      (hfinished : finished = old.times.finished ∨ finished = some now)
      (htimes : new.times = { old.times with queued := some now, finished }) :
      Stamped now old new
  | finish (hold : old.status = .RUNNING)
      (hst : new.status = .SUCCEEDED ∨ new.status = .DEAD_LETTERED)
      (htimes : new.times = { old.times with finished := some now }) : Stamped now old new
  | skip (hold : old.status = .PENDING) (hst : new.status = .SKIPPED)
      (htimes : new.times = { old.times with finished := some now }) : Stamped now old new

section Row

variable {start now : ℕ} {old new node : NodeExecution}

/-- Time goes on. -/
theorem Dated.mono {now' : ℕ} (h : Dated start now node) (hle : now ≤ now') :
    Dated start now' node :=
  ⟨fun t ht => ⟨(h.within t ht).1, (h.within t ht).2.trans hle⟩, h.waiting, h.skipped, h.queued,
    h.running, h.ended⟩

/-- The ends of a row that has run have come. -/
theorem Dated.finished_before (h : Dated start now node)
    (hst : node.status = .SUCCEEDED ∨ node.status = .DEAD_LETTERED) :
    Before node.times.finished (some now) :=
  before_now (h.ended hst).worked.isSome_right fun t ht => (h.within t (.inr (.inr ht))).2

/-- A row that is queued or runs has been queued. -/
theorem Dated.queued_before (h : Dated start now node)
    (hst : node.status = .QUEUED ∨ node.status = .RUNNING) :
    Before node.times.queued (some now) := by
  refine before_now ?_ fun t ht => (h.within t (.inl ht)).2
  rcases hst with hst | hst
  · exact h.queued hst
  · exact (h.running hst).isSome_left

/-- **One step of one row.** Each kind of step writes the present into the column that its
new status looks at and keeps the others. So the columns that count in the new status are
those of the old one, which were in order, with the present behind them. -/
theorem Dated.stamped (h : Dated start now old) (hle : start ≤ now)
    (hstep : Stamped now old new) : Dated start now new := by
  cases hstep with
  | same hst htimes =>
      refine ⟨?_, ?_, ?_, ?_, ?_, ?_⟩
      all_goals rw [htimes]
      · exact h.within
      all_goals rw [hst]
      · exact h.waiting
      · exact h.skipped
      · exact h.queued
      · exact h.running
      · exact h.ended
  | run hold hst htimes =>
      refine ⟨?_, ?_, ?_, ?_, ?_, ?_⟩
      all_goals rw [htimes]
      · rintro t (ht | ht | ht)
        · exact h.within t (.inl ht)
        · exact Option.some.inj ht ▸ ⟨hle, le_rfl⟩
        · exact h.within t (.inr (.inr ht))
      all_goals rw [hst]
      · simp
      · simp
      · simp
      · exact fun _ => h.queued_before hold
      · simp
  -- a retry has also noted that the attempt before it is over
  | queue hold hst finished hfinished htimes =>
      refine ⟨?_, ?_, ?_, ?_, ?_, ?_⟩
      all_goals rw [htimes]
      · rintro t (ht | ht | ht)
        · exact Option.some.inj ht ▸ ⟨hle, le_rfl⟩
        · exact h.within t (.inr (.inl ht))
        · rcases hfinished with hf | hf
          · exact h.within t (.inr (.inr (hf ▸ ht)))
          · rw [hf] at ht
            exact Option.some.inj ht ▸ ⟨hle, le_rfl⟩
      all_goals rw [hst]
      · simp
      · simp
      · simp
      · simp
      · simp
  | finish hold hst htimes =>
      refine ⟨?_, ?_, ?_, ?_, ?_, ?_⟩
      all_goals rw [htimes]
      · rintro t (ht | ht | ht)
        · exact h.within t (.inl ht)
        · exact h.within t (.inr (.inl ht))
        · exact Option.some.inj ht ▸ ⟨hle, le_rfl⟩
      · rcases hst with hst | hst <;> simp [hst]
      · rcases hst with hst | hst <;> simp [hst]
      · rcases hst with hst | hst <;> simp [hst]
      · rcases hst with hst | hst <;> simp [hst]
      · exact fun _ => ⟨h.running hold, before_now (h.running hold).isSome_right
          fun t ht => (h.within t (.inr (.inl ht))).2⟩
  | skip hold hst htimes =>
      have hnone := h.waiting hold
      refine ⟨?_, ?_, ?_, ?_, ?_, ?_⟩
      all_goals rw [htimes]
      · rintro t (ht | ht | ht)
        · exact h.within t (.inl ht)
        · exact h.within t (.inr (.inl ht))
        · exact Option.some.inj ht ▸ ⟨hle, le_rfl⟩
      all_goals rw [hst]
      · simp
      · exact fun _ => ⟨now, by rw [hnone]⟩
      · simp
      · simp
      · simp

/-- A row that has settled keeps its times. -/
theorem Stamped.of_settled (h : Stamped now old new)
    (hst : old.status = .SUCCEEDED ∨ old.status = .SKIPPED) : new.times = old.times := by
  cases h with
  | same hnew htimes => exact htimes
  | run hold => rcases hst with hst | hst <;> rw [hst] at hold <;> simp at hold
  | queue hold => rcases hst with hst | hst <;> rw [hst] at hold <;> simp at hold
  | finish hold => rcases hst with hst | hst <;> rw [hst] at hold <;> cases hold
  | skip hold => rcases hst with hst | hst <;> rw [hst] at hold <;> cases hold

/-- A row that has work was queued now, or had work and was queued then. -/
theorem Stamped.queued (h : Stamped now old new) (hact : new.status.active = true) :
    new.times.queued = some now ∨
      old.status.active = true ∧ new.times.queued = old.times.queued := by
  cases h with
  | same hst htimes => exact .inr ⟨hst ▸ hact, by rw [htimes]⟩
  | run hold hst htimes =>
      exact .inr ⟨by rcases hold with hold | hold <;> rw [hold] <;> rfl, by rw [htimes]⟩
  | queue hold hst finished hfinished htimes => exact .inl (by rw [htimes])
  | finish hold hst htimes => exact .inr ⟨by rw [hold]; rfl, by rw [htimes]⟩
  | skip hold hst htimes =>
      rw [hst] at hact
      cases hact

end Row

/-- The rows of a completion. Its own row gets an end, and after a retry also a new
queueing; other rows are skipped or queued out of PENDING. -/
theorem Completed.stamped {d : WorkflowDefinition} {node_def : Node} {n : String}
    {result : ExecutorResult} {nodes : Table String NodeExecution} {execution : Execution}
    {e now : ℕ} {session : Session} {pubs : List String}
    (h : Completed d node_def n result nodes execution e now session pubs) (m : String) :
    Stamped now (nodes.row m) (session.nodes.row m) := by
  by_cases hm : m = n
  · subst hm
    have hrun := h.running.2
    rcases h.own_row with hrow | ⟨hrow, -⟩ | hrow
    · rw [hrow]
      exact .finish hrun (.inl rfl) rfl
    · rw [hrow]
      exact .queue (.inr (.inl hrun)) rfl (some now) (.inr rfl) rfl
    · rw [hrow]
      exact .finish hrun (.inr rfl) rfl
  · cases h with
    | succeed targets _ hkey hrun hres hT heff hdead hexec =>
        have hback := Table.row_set_of_ne nodes ((nodes.row n).succeed result.output now) hm
        rcases heff.cases m with ⟨-, hp, hrow⟩ | ⟨-, hp, -, hrow⟩ | ⟨-, -, hrow⟩
        · rw [hback] at hp hrow
          rw [hrow]
          exact .skip hp rfl rfl
        · rw [hback] at hp hrow
          rw [hrow]
          exact .queue (.inl hp) rfl _ (.inl rfl) rfl
        · rw [hrow, hback]
          exact .same rfl rfl
    | requeue hkey hrun hres hleft hnodes hdead hexec =>
        rw [hnodes, Table.row_set_of_ne _ _ hm]
        exact .same rfl rfl
    | bury hkey hrun hres hleft hnodes hdead hexec =>
        rw [hnodes, Table.row_set_of_ne _ _ hm]
        exact .same rfl rfl

/-- **What a step does to a row.** Every step other than a completion writes one row or
none; a completion writes several, but each of them by one transition
([`Completed.stamped`]). -/
theorem RowsStep.stamped {s : Sys} {a : Action} {e : ℕ} {d : WorkflowDefinition}
    {rows rows' : ExecutionRows} (h : RowsStep s a e d rows rows') (m : String) :
    Stamped s.clock (rows.nodes.row m) (rows'.nodes.row m) := by
  -- one row is written
  have set : ∀ {n : String} {node : NodeExecution}, Stamped s.clock (rows.nodes.row n) node →
      Stamped s.clock (rows.nodes.row m) ((rows.nodes.set n node).row m) := by
    intro n node hnode
    by_cases hm : m = n
    · rw [hm, Table.row_set_self]
      exact hnode
    · rw [Table.row_set_of_ne _ _ hm]
      exact .same rfl rfl
  cases h with
  | quiet hexec hkeys hrow hdead =>
      obtain ⟨id, hm⟩ := hrow m
      rw [hm]
      exact .same rfl rfl
  | run n hkey hst => exact set (.run hst rfl rfl)
  | retry n hkey hst => exact set (.queue (.inr (.inr hst)) rfl _ (.inl rfl) rfl)
  | complete ha hphase he hdef hframe hends hdone => exact hdone.stamped m

/-! ## The rows of an execution -/

/-- The times of an execution that was started at `start`. -/
structure TimesInv (d : WorkflowDefinition) (start now : ℕ) (rows : ExecutionRows) : Prop where
  started : rows.execution.started_at = some start
  le : start ≤ now
  row : ∀ n, Dated start now (rows.nodes.row n)
  /-- A node is queued after its parents have finished. -/
  edge : ∀ p c, c ∈ d.child_ids p → (rows.nodes.row c).status.active = true →
    Before (rows.nodes.row p).times.finished (rows.nodes.row c).times.queued
  unfinished : rows.execution.status = .RUNNING → rows.execution.finished_at = none
  /-- A success comes after all of its nodes. -/
  finished : rows.execution.status = .SUCCEEDED → ∃ finish,
    rows.execution.finished_at = some finish ∧ start ≤ finish ∧ finish ≤ now ∧
      ∀ n ∈ d.node_ids, ∀ t ∈ (rows.nodes.row n).times.finished, t ≤ finish

/-- What a unit of work writes into the row of an execution whose instance says
RUNNING and has no end. -/
theorem flush_enter_finished_at {execution : Execution} {status : ExecutionStatus}
    (stored : Execution) (now : ℕ) (hst : status = .SUCCEEDED ∨ status = .FAILED)
    (hnone : execution.finished_at = none) :
    (execution.flush (execution.enter status now) stored).finished_at = some now ∧
      (execution.flush (execution.enter status now) stored).started_at = stored.started_at := by
  rcases hst with rfl | rfl
  all_goals simp [Execution.flush, Execution.enter, TERMINAL_EXECUTION_STATUSES, written, hnone]

section Rows

variable {env : Env} {s : Sys} {a : Action} {e start : ℕ} {d : WorkflowDefinition}
  {rows rows' : ExecutionRows}

/-- The execution row: it stays, or the step ends the execution. Only a completion ends
one. It writes from the instance it has loaded before the executor ran, so it has to be
known that this instance, if it is RUNNING, has no end yet. -/
theorem RowsStep.execution_times (h : RowsStep s a e d rows rows')
    (hcached : ∀ t m context execution, (s.tasks t).phase = .invoked m context execution →
      execution.status = .RUNNING → execution.finished_at = none) :
    rows'.execution = rows.execution ∨
      (rows'.execution.status = .SUCCEEDED ∨ rows'.execution.status = .FAILED) ∧
        rows'.execution.finished_at = some s.clock ∧
        rows'.execution.started_at = rows.execution.started_at := by
  cases h with
  | quiet hexec hkeys hrow hdead => exact .inl hexec
  | run n hkey hst => exact .inl rfl
  | retry n hkey hst => exact .inl rfl
  | @complete logs t m result context execution node_def session pubs ha hphase he hdef
      hframe hends hdone =>
      cases hends with
      | stays hexec hev =>
          have hexec : session.execution = execution := hexec
          exact .inl (by simp only [hexec, Execution.flush_untouched])
      | ends status hst hr hexec hev =>
          have hexec : session.execution = execution.enter status s.clock := hexec
          have hrun : execution.status = .RUNNING := hr
          obtain ⟨hfin, hstart⟩ := flush_enter_finished_at rows.execution s.clock hst
            (hcached t m context execution hphase hrun)
          have hend : (execution.flush (execution.enter status s.clock) rows.execution).status
              = status := flush_enter_status hrun (by rcases hst with rfl | rfl <;> simp)
          simp only [hexec]
          exact .inr ⟨hend.symm ▸ hst, hfin, hstart⟩

/-- **One step.** What one row has to satisfy is [`Dated.stamped`]. The part about an edge
is only at stake when its child is queued: then the join test has just found the parent
SUCCEEDED, so the parent has finished by now. Otherwise the child had work before, its
parent has settled, and neither time changes. The part about the end of the execution is
at stake when it ends, which is now; later the nodes of a SUCCEEDED execution have
settled. -/
theorem TimesInv.step (h : TimesInv d start s.clock rows) (hstep : RowsStep s a e d rows rows')
    (hcached : ∀ t m context execution, (s.tasks t).phase = .invoked m context execution →
      execution.status = .RUNNING → execution.finished_at = none)
    (hdag : DagInv d rows.nodes) (hdag' : DagInv d rows'.nodes) (hexec : ExecInv d rows) :
    TimesInv d start s.clock rows' := by
  have hrow := fun n => (h.row n).stamped h.le (hstep.stamped n)
  refine ⟨?_, h.le, hrow, fun p c hc hact => ?_, fun hrun => ?_, fun hs => ?_⟩
  · rcases hstep.execution_times hcached with heq | ⟨-, -, hstart⟩
    · rw [heq, h.started]
    · rw [hstart, h.started]
  · have hparent := WorkflowDefinition.mem_child_ids_iff_mem_parent_ids.mp hc
    rcases (hstep.stamped c).queued hact with hnow | ⟨hold, hsame⟩
    · -- the join test has just passed
      rw [hnow]
      exact (hrow p).finished_before (.inl (hdag'.active c hact p hparent))
    · have hp := hdag.active c hold p hparent
      rw [hsame, (hstep.stamped p).of_settled (.inl hp)]
      exact h.edge p c hc hold
  · rcases hstep.execution_times hcached with heq | ⟨hst, -⟩
    · rw [heq]
      exact h.unfinished (heq ▸ hrun)
    · rcases hst with hst | hst <;> rw [hst] at hrun <;> cases hrun
  · rcases hstep.execution_times hcached with heq | ⟨-, hfin, -⟩
    · -- the nodes of a SUCCEEDED execution have settled
      rw [heq] at hs ⊢
      obtain ⟨finish, hfinish, hle, hle', hnodes⟩ := h.finished hs
      refine ⟨finish, hfinish, hle, hle', fun n hn => ?_⟩
      rw [(hstep.stamped n).of_settled (hexec.succeeded hs n hn)]
      exact hnodes n hn
    · exact ⟨s.clock, hfin, h.le, le_rfl,
        fun n _ t ht => ((hrow n).within t (.inr (.inr ht))).2⟩

/-- A transition to RUNNING notes the time. -/
theorem Session.Steps.started_at {u v : Session} (h : Session.Steps u v)
    (hu : u.execution.status = .RUNNING → u.execution.started_at = some u.now) :
    v.execution.status = .RUNNING → v.execution.started_at = some v.now := by
  induction h with
  | refl => exact hu
  | tail _ hstep ih =>
      cases hstep with
      | transition n from_status to_status hmove htr =>
          obtain ⟨node, -, -, rfl⟩ := transition_node_status_ok htr
          exact ih
      | transition_execution from_status to_status htr =>
          obtain ⟨-, rfl⟩ := transition_execution_status_ok htr
          intro hrun
          have hto : to_status = .RUNNING := by simpa using hrun
          subst hto
          rfl
      | payload n node output error hget => exact ih
      | log => exact ih
      | dead_letter => exact ih

@[simp] theorem initial_node_times (d : WorkflowDefinition) (n : String) :
    (initial_node d n).times = {} := by
  unfold initial_node
  split <;> rfl

/-- The times of a new execution. -/
theorem timesInv_of_start {vid owner eid now : ℕ} {input : Option JsonObject}
    {session : Session} {pubs : List String}
    (h : start_execution env vid input owner eid now = .ok (session, pubs))
    (hd : session.inserted.Of env d) : TimesInv d now now session.inserted := by
  obtain ⟨version, hversion, -, hsteps, -, hst, hfin, hvid, -, -, -, hpubs, hq, hkeep⟩ :=
    start_execution_spec h
  obtain rfl : version.definition = d := by
    obtain ⟨⟨v, hv, hdef⟩, -, -⟩ := hd
    change env.versions session.execution.workflow_version_id = some v at hv
    rw [hvid, hversion, Option.some.injEq] at hv
    rw [hv, hdef]
  have hstarted := hsteps.started_at (fun hrun => by cases hrun) hst
  rw [hsteps.sameFrame.now] at hstarted
  -- a node without parents has been queued, the others wait
  have hnodes : ∀ n, (n ∈ pubs ∧ (session.nodes.row n).status = .QUEUED ∧
      (session.nodes.row n).times = { queued := some now }) ∨
      ((session.nodes.row n).status = .PENDING ∧ (session.nodes.row n).times = {}) := by
    intro n
    by_cases hn : n ∈ pubs
    · refine .inl ⟨hn, ?_, ?_⟩
      · rw [hq n hn, NodeExecution.enter_status]
      · rw [hq n hn]
        change { (initial_node version.definition n).times with queued := some now } = _
        rw [initial_node_times]
    · exact .inr ⟨by rw [hkeep n hn, initial_node_status], by rw [hkeep n hn, initial_node_times]⟩
  refine ⟨hstarted, le_rfl, fun n => ?_, fun p c hc hact => ?_, fun _ => hfin, fun hs => ?_⟩
  · change Dated now now (session.nodes.row n)
    rcases hnodes n with ⟨-, hqueued, htimes⟩ | ⟨hpending, htimes⟩
    · refine ⟨?_, ?_, ?_, ?_, ?_, ?_⟩
      all_goals rw [htimes]
      · rintro t (ht | ht | ht)
        · exact Option.some.inj ht ▸ ⟨le_rfl, le_rfl⟩
        · cases ht
        · cases ht
      all_goals simp [hqueued]
    · refine ⟨?_, ?_, ?_, ?_, ?_, ?_⟩
      all_goals rw [htimes]
      · rintro t (ht | ht | ht) <;> cases ht
      all_goals simp [hpending]
  · change (session.nodes.row c).status.active = true at hact
    rcases hnodes c with ⟨hroot, -⟩ | ⟨hpending, -⟩
    · rw [hpubs, List.mem_filter, decide_eq_true_eq] at hroot
      have hparent := WorkflowDefinition.mem_child_ids_iff_mem_parent_ids.mp hc
      rw [hroot.2] at hparent
      cases hparent
    · rw [hpending] at hact
      cases hact
  · change session.execution.status = _ at hs
    rw [hst] at hs
    cases hs

end Rows

/-! ## Every run -/

/-- The times of all executions; the instances that workers hold have no end. -/
structure ChronoInv (env : Env) (s : Sys) : Prop where
  atomic : AtomicInv env s
  times : ∀ e rows d, s.executions e = some rows → rows.Of env d →
    ∃ start, TimesInv d start s.clock rows
  cached : ∀ t m context execution, (s.tasks t).phase = .invoked m context execution →
    execution.status = .RUNNING → execution.finished_at = none

section Runs

variable {env : Env} {s s' : Sys} {a : Action}

/-- Time goes on. -/
theorem TimesInv.mono {d : WorkflowDefinition} {start now now' : ℕ} {rows : ExecutionRows}
    (h : TimesInv d start now rows) (hle : now ≤ now') : TimesInv d start now' rows := by
  refine ⟨h.started, h.le.trans hle, fun n => (h.row n).mono hle, h.edge, h.unfinished,
    fun hs => ?_⟩
  obtain ⟨finish, hfinish, hstart, hnow, hnodes⟩ := h.finished hs
  exact ⟨finish, hfinish, hstart, hnow.trans hle, hnodes⟩

theorem ChronoInv.step (h : ChronoInv env s) (hs : s.step env a = some s')
    (ha : a.atomic = true) : ChronoInv env s' := by
  have hatomic := h.atomic.step hs ha
  obtain ⟨u, hu, rfl⟩ := Option.map_eq_some_iff.mp hs
  have heff := effect_of_act h.atomic.typed hu
  refine ⟨hatomic, fun e rows' d hrows' hd' => ?_, fun t m context execution hphase hrun => ?_⟩
  · rcases heff.rowsStep h.atomic.typed ha hrows' with
      ⟨t, vid, input, owner, session, pubs, -, -, hok, rfl⟩ | ⟨rows, d₀, hrows, hd, hstep⟩
    · exact ⟨s.clock, (timesInv_of_start hok hd').mono (Nat.le_succ _)⟩
    · obtain rfl := (hstep.of hd).unique hd'
      obtain ⟨start, htimes⟩ := h.times e rows _ hrows hd
      exact ⟨start, (htimes.step hstep h.cached (h.atomic.dag e rows _ hrows hd)
        (hatomic.dag e rows' _ hrows' hd') (h.atomic.exec e rows _ hrows hd)).mono
        (Nat.le_succ _)⟩
  · rcases heff.invoked hphase with hold |
      ⟨job, attempt, rows, d, node_def, -, hrows, -, -, rfl, -⟩
    · exact h.cached t m context execution hold hrun
    · obtain ⟨d, hd⟩ := h.atomic.typed.rows _ rows hrows
      obtain ⟨start, htimes⟩ := h.times _ rows d hrows hd
      exact htimes.unfinished hrun

theorem chronoInv_of_run (hrun : AtomicRun env Sys.init s) : ChronoInv env s :=
  hrun.invariant (ChronoInv env)
    ⟨atomicInv_init, by simp [Sys.init], fun _ _ _ _ h => by cases h⟩
    fun _ _ _ hinv ha hs => hinv.step hs ha

end Runs

/-- **The times follow the edges.** In every reachable state of the atomic alphabet the
times of an execution lie between its start and the present, those of a node are in the
order of its status, and a node that has work was queued after all nodes before it had
finished. Once the execution has SUCCEEDED, its end is after that of every node, and no
chain of its nodes has run longer than it. The first two parts are the invariant
[`TimesInv`]. The others are general facts about numbers on a graph, applied to it: along
a path every end lies before the next queueing ([`finished_before`]), and durations that
lie one after the other in an interval add up to no more than its length
([`chain_duration`]). -/
theorem times_follow_edges (env : Env) (s : Sys) (hrun : AtomicRun env Sys.init s) (e : ℕ)
    (rows : ExecutionRows) (hrows : s.executions e = some rows) (d : WorkflowDefinition)
    (hd : rows.Of env d) :
    ∃ start, rows.execution.started_at = some start ∧
      (∀ n, Dated start s.clock (rows.nodes.row n)) ∧
      (∀ a n, Relation.TransGen (fun p c => c ∈ d.child_ids p) a n →
        (rows.nodes.row n).status.active = true →
        Before (rows.nodes.row a).times.finished (rows.nodes.row n).times.queued) ∧
      (rows.execution.status = .SUCCEEDED →
        ∃ finish, rows.execution.finished_at = some finish ∧ start ≤ finish ∧
          (∀ n ∈ d.node_ids, ∀ t ∈ (rows.nodes.row n).times.finished, t ≤ finish) ∧
          ∀ path : List String, path.IsChain (fun p c => c ∈ d.child_ids p) →
            (∀ n ∈ path, n ∈ d.node_ids ∧ (rows.nodes.row n).status = .SUCCEEDED) →
            start + (path.map fun n => (rows.nodes.row n).times.duration).sum ≤ finish) := by
  have hinv := chronoInv_of_run hrun
  obtain ⟨start, htimes⟩ := hinv.times e rows d hrows hd
  have hdag := hinv.atomic.dag e rows d hrows hd
  refine ⟨start, htimes.started, htimes.row, fun a n hpath hact => ?_, fun hs => ?_⟩
  · refine finished_before (fun n => (rows.nodes.row n).times)
      (fun n => (rows.nodes.row n).status.active = true) hpath hact ?_
    intro p c hc hact
    have hp := hdag.active c hact p (WorkflowDefinition.mem_child_ids_iff_mem_parent_ids.mp hc)
    exact ⟨by rw [hp]; rfl, (htimes.row p).ended (.inl hp), htimes.edge p c hc hact⟩
  · obtain ⟨finish, hfinish, hle, -, hnodes⟩ := htimes.finished hs
    refine ⟨finish, hfinish, hle, hnodes, fun path hpath hsucceeded => ?_⟩
    refine chain_duration (fun n => (rows.nodes.row n).times) hle hpath
      (fun n hn => (htimes.row n).ended (.inl (hsucceeded n hn).2))
      (fun p c hc hmem => htimes.edge p c hc (by rw [(hsucceeded c hmem).2]; rfl))
      (fun n _ t ht => ((htimes.row n).within t (.inl ht)).1)
      fun n hn => hnodes n (hsucceeded n hn).1

/-- `chain` to its end: it has taken at least as long as `a` and `b` together. -/
theorem times_follow_edges_chain :
    ∃ s rows start finish, atomic_run chain
        (chain_run ++ [.flush 2, .flush 2, .invoke 2, .complete 2 succeeded]) = some s ∧
      s.executions 0 = some rows ∧ rows.execution.started_at = some start ∧
      rows.execution.finished_at = some finish ∧
      start + ((rows.nodes.row "a").times.duration + (rows.nodes.row "b").times.duration)
        ≤ finish := by
  have hend : (atomic_run chain
      (chain_run ++ [.flush 2, .flush 2, .invoke 2, .complete 2 succeeded])).bind
      (fun s => (s.executions 0).map fun rows => (rows.execution.status,
        (rows.nodes.row "a").status, (rows.nodes.row "b").status))
      = some (.SUCCEEDED, .SUCCEEDED, .SUCCEEDED) := by decide +kernel
  obtain ⟨s, hs, hst⟩ := Option.bind_eq_some_iff.mp hend
  obtain ⟨rows, hrows, hst⟩ := Option.map_eq_some_iff.mp hst
  simp only [Prod.mk.injEq] at hst
  obtain ⟨hst, ha, hb⟩ := hst
  have hrun := atomicRun_of_run hs
  obtain ⟨d, hd⟩ := (typed_of_reaches hrun).rows _ _ hrows
  obtain rfl := of_env_of hd
  obtain ⟨start, hstart, -, -, hfinish⟩ :=
    times_follow_edges (env_of chain) s hrun 0 rows hrows chain hd
  obtain ⟨finish, hfin, -, -, hpath⟩ := hfinish hst
  have hids : chain.node_ids = ["a", "b"] := rfl
  have hsum := hpath ["a", "b"] (by decide) (by simp [ha, hb, hids])
  exact ⟨s, rows, start, finish, hs, hrows, hstart, hfin, by simpa using hsum⟩

end EventFlow
