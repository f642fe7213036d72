/-
The journal of an execution: its log rows and the events on the channel.

[`journal_announced`] relates the two for every action of both alphabets: the
log rows of an execution are the logs that committed transactions have staged for
it, in commit order, so that each row is announced by exactly one event.
[`broadcast_once`] says what becomes of staged events: the channel carries no
event that was not committed and none twice, whatever crashes.
-/
import EventFlow.Safety
import EventFlow.EventOrder
import Mathlib.Algebra.BigOperators.Group.Finset.Basic
import Mathlib.Algebra.Order.BigOperators.Group.Finset
import Mathlib.Algebra.Order.Group.Multiset
import Mathlib.Tactic.Abel

set_option autoImplicit false

namespace EventFlow

open Transition

/-! ## Log rows and their events -/

/-- The log row that an event announces. -/
def EventData.log? : EventData → Option ExecutionLog
  | .execution_log log => some log
  | _ => none

/-- The log rows of `e` that a list of events announces. -/
def logs_of (e : ℕ) (events : List Envelope) : List ExecutionLog :=
  events.filterMap fun event => if event.execution_id = e then event.data.log? else none

section Logs

variable {e : ℕ} {events : List Envelope}

theorem logs_of_append (e : ℕ) (events events' : List Envelope) :
    logs_of e (events ++ events') = logs_of e events ++ logs_of e events' :=
  List.filterMap_append ..

theorem logs_of_eq_nil (h : ∀ event ∈ events, event.execution_id ≠ e) : logs_of e events = [] := by
  refine List.filterMap_eq_nil_iff.mpr fun event hevent => ?_
  rw [if_neg (h event hevent)]

/-- A unit of work adds a log row together with its event. -/
theorem Session.Step.logs {s s' : Session} (h : Session.Step s s') :
    ∃ new, s'.ws_events = s.ws_events ++ new ∧
      s'.new_logs = s.new_logs ++ logs_of s.execution_id new := by
  cases h with
  | transition n from_status to_status hmove h =>
      obtain ⟨node, -, -, rfl⟩ := transition_node_status_ok h
      exact ⟨_, rfl, by simp [logs_of, EventData.log?, Session.stage_event, Session.set_node]⟩
  | transition_execution from_status to_status h =>
      obtain ⟨-, rfl⟩ := transition_execution_status_ok h
      exact ⟨_, rfl, by simp [logs_of, EventData.log?, Session.stage_event]⟩
  | payload => exact ⟨[], by simp [Session.set_node], by simp [logs_of, Session.set_node]⟩
  | log => exact ⟨_, rfl, by simp [logs_of, EventData.log?, add_log, Session.stage_event]⟩
  | dead_letter => exact ⟨[], by simp, by simp [logs_of]⟩

theorem Session.Steps.logs {s s' : Session} (h : Session.Steps s s') :
    ∃ new, s'.ws_events = s.ws_events ++ new ∧
      s'.new_logs = s.new_logs ++ logs_of s.execution_id new := by
  induction h with
  | refl => exact ⟨[], by simp, by simp [logs_of]⟩
  | tail hprev hstep ih =>
      obtain ⟨new, hnew, hlogs⟩ := ih
      obtain ⟨last, hlast, hlogs'⟩ := hstep.logs
      refine ⟨new ++ last, by rw [hlast, hnew, List.append_assoc], ?_⟩
      rw [hlogs', hlogs, (Session.Steps.sameFrame hprev).execution_id, logs_of_append,
        List.append_assoc]

/-- The same for a session that starts with nothing staged. -/
theorem logs_of_steps {loaded session : Session} (h : Session.Steps loaded session)
    (hevents : loaded.ws_events = []) (hlogs : loaded.new_logs = []) :
    session.new_logs = logs_of loaded.execution_id session.ws_events := by
  obtain ⟨new, hnew, hnew'⟩ := h.logs
  rw [hnew', hnew, hevents, hlogs, List.nil_append, List.nil_append]

end Logs

/-- The log rows of an execution are those that have been announced for it. -/
structure JournalInv (s : Sys) : Prop where
  logs : ∀ e rows, s.executions e = some rows → rows.logs = logs_of e s.committed
  fresh : ∀ event ∈ s.committed, event.execution_id < s.next_execution_id

section JournalInv

variable {env : Env} {s s' : Sys} {a : Action}

/-- A commit with the log rows of its session. -/
theorem JournalInv.commit (t : ℕ) (phase : Phase) {e : ℕ} {rows rows' : ExecutionRows}
    {loaded session : Session} (h : JournalInv s) (ht : s.Typed env)
    (hrows : s.executions e = some rows)
    (hsteps : Session.Steps loaded session) (hid : loaded.execution_id = e)
    (hevents : loaded.ws_events = []) (hnew : loaded.new_logs = [])
    (hlogs : rows'.logs = rows.logs ++ session.new_logs) :
    JournalInv (s.commit t e rows' session.ws_events phase) := by
  have hall := events_of_steps hsteps hevents
  rw [hid] at hall
  constructor
  · intro e' r hr
    change _ = logs_of e' (s.committed ++ session.ws_events)
    rw [logs_of_append]
    by_cases he : e' = e
    · subst he
      simp only [Sys.commit, Function.update_self, Option.some.injEq] at hr
      rw [← hr, hlogs, h.logs e' rows hrows, logs_of_steps hsteps hevents hnew, hid]
    · simp only [Sys.commit, Function.update_of_ne he] at hr
      have hnil : logs_of e' session.ws_events = [] := logs_of_eq_nil fun event hevent heq =>
        he (heq.symm.trans (hall event hevent))
      rw [hnil, List.append_nil, h.logs e' r hr]
  · intro event hevent
    rcases List.mem_append.mp hevent with hevent | hevent
    · exact h.fresh event hevent
    · rw [hall event hevent]
      exact ht.lt hrows

/-- What happens to the rows of no execution leaves the journals alone. -/
theorem JournalInv.congr (h : JournalInv s) (hrows : ∀ e rows, s'.executions e = some rows →
      ∃ old, s.executions e = some old ∧ rows.logs = old.logs)
    (hcommitted : s'.committed = s.committed)
    (hnext : s'.next_execution_id = s.next_execution_id) : JournalInv s' := by
  constructor
  · intro e rows hr
    obtain ⟨old, hold, hlogs⟩ := hrows e rows hr
    rw [hlogs, hcommitted, h.logs e old hold]
  · rw [hcommitted, hnext]
    exact h.fresh

/-- The journal of a new execution. -/
theorem JournalInv.start {t : ℕ} {session : Session} {phase : Phase} {version : WorkflowVersion}
    {vid now : ℕ} {input : Option JsonObject} (h : JournalInv s)
    (hsteps : Session.Steps (new_session version vid s.next_execution_id now input) session) :
    JournalInv { s.commit t s.next_execution_id session.inserted session.ws_events phase with
      next_execution_id := s.next_execution_id + 1 } := by
  have hall : ∀ event ∈ session.ws_events, event.execution_id = s.next_execution_id :=
    events_of_steps hsteps rfl
  constructor
  · intro e rows hr
    change _ = logs_of e (s.committed ++ session.ws_events)
    rw [logs_of_append]
    by_cases he : e = s.next_execution_id
    · subst he
      simp only [Sys.commit, Function.update_self, Option.some.injEq] at hr
      -- nothing has been announced for it before
      have hnil : logs_of s.next_execution_id s.committed = [] :=
        logs_of_eq_nil fun event hevent => (h.fresh event hevent).ne
      rw [← hr, hnil, List.nil_append]
      exact logs_of_steps hsteps rfl rfl
    · simp only [Sys.commit, Function.update_of_ne he] at hr
      have hnil : logs_of e session.ws_events = [] := logs_of_eq_nil fun event hevent heq =>
        he (heq.symm.trans (hall event hevent))
      rw [hnil, List.append_nil, h.logs e rows hr]
  · intro event hevent
    rcases List.mem_append.mp hevent with hevent | hevent
    · exact (h.fresh event hevent).trans (Nat.lt_succ_self _)
    · rw [hall event hevent]
      exact Nat.lt_succ_self _

/-- **Every step keeps the journals.** Whatever commits rows appends the log rows of its
session to them and the events of the same session to the history, and a session stages
one event with each log row it adds. A step without a commit changes neither. -/
theorem JournalInv.effect (h : JournalInv s) (ht : s.Typed env) (heff : Effect env s a s') :
    JournalInv s' := by
  cases heff with
  | start hidle hok =>
      obtain ⟨version, -, -, hsteps, -⟩ := start_execution_spec hok
      exact h.start hsteps
  | retry hidle hrows hkey hst hsame hnodes =>
      exact h.commit _ _ ht hrows hsame.steps rfl rfl rfl rfl
  | discard_logged ha hidle hentry hrows hst hsame hnodes =>
      exact h.commit _ _ ht hrows hsame.steps rfl rfl rfl rfl
  | claim ha hidle hentry hrows hkey hsame hnodes =>
      exact h.commit _ _ ht hrows hsame.steps rfl rfl rfl rfl
  | @recover_raised t m entry rows session hidle hentry hrows hsame hnodes =>
      exact (h.commit t .idle ht hrows hsame.steps rfl rfl rfl rfl).congr
        (fun e rows hr => ⟨rows, hr, rfl⟩) rfl rfl
  | recover hidle hentry hrows hkey hst hsame =>
      exact h.commit _ _ ht hrows hsame.steps rfl rfl rfl rfl
  | reclaim htask hrows hkey hst hsame => exact h.commit _ _ ht hrows hsame.steps rfl rfl rfl rfl
  | complete hphase hrows hlookup hsteps hends hdone =>
      exact h.commit _ _ ht hrows hsteps rfl rfl rfl rfl
  | @delete e owner =>
      refine h.congr (fun e' rows hr => ⟨rows, ?_, rfl⟩) rfl rfl
      by_cases he : e' = e
      · subst he
        simp at hr
      · simpa only [Function.update_of_ne he] using hr
  | @finish t e msg sent events rows htask hrows =>
      refine h.congr (fun e' r hr => ?_) rfl rfl
      by_cases he : e' = e
      · subst he
        simp only [Function.update_self, Option.some.injEq] at hr
        exact ⟨rows, hrows, by rw [← hr]⟩
      · exact ⟨r, by simpa only [Function.update_of_ne he] using hr, rfl⟩
  | _ => exact h.congr (fun e rows hr => ⟨rows, hr, rfl⟩) rfl rfl

end JournalInv

/-- **The log rows of an execution are the logs announced for it**, in commit order, in
every reachable state of either alphabet. Neither a crash nor a second delivery can come
between the two, because they are written by the same step; what a crash can lose is the
broadcast. -/
theorem journal_announced (env : Env) (s : Sys)
    (hrun : Reaches (Sys.step env) (fun _ _ => True) Sys.init s) (e : ℕ) (rows : ExecutionRows)
    (hrows : s.executions e = some rows) : rows.logs = logs_of e s.committed := by
  have hinv : JournalInv s := by
    refine Sys.invariant_of_effect JournalInv hrun typed_init ?_ ?_
      fun u a v ht hu _ heff => hu.effect ht heff
    · constructor <;> simp [Sys.init]
    · exact fun u clock hu => ⟨hu.logs, hu.fresh⟩
  exact hinv.logs e rows hrows

/-- After the start of `chain`, and `a` up to its completion. -/
theorem journal_announced_chain :
    ∃ s rows, atomic_run chain chain_run = some s ∧ s.executions 0 = some rows ∧
      rows.logs.length = 4 ∧ rows.logs = logs_of 0 s.committed := by
  have hlen : (atomic_run chain chain_run).bind
      (fun s => (s.executions 0).map fun rows => rows.logs.length) = some 4 := by decide +kernel
  obtain ⟨s, hs, hlen⟩ := Option.bind_eq_some_iff.mp hlen
  obtain ⟨rows, hrows, hlen⟩ := Option.map_eq_some_iff.mp hlen
  exact ⟨s, rows, hs, hrows, hlen, journal_announced (env_of chain) s
    ((atomicRun_of_run hs).mono fun _ _ _ => trivial) 0 rows hrows⟩

/-! ## What becomes of staged events -/

/-- What the first `bound` tasks have staged. -/
def Sys.staged_events (bound : ℕ) (s : Sys) : Multiset Envelope :=
  ∑ t ∈ Finset.range bound, ((s.tasks t).ws_events : Multiset Envelope)

section Broadcast

variable {env : Env} {s s' : Sys} {a : Action}

/-- **What a step does with events.** What it broadcasts and what its task has
staged afterwards was staged before or is committed now. -/
inductive Moves (s s' : Sys) (a : Action) : Prop
  | nothing (htasks : s'.tasks = s.tasks) (hcommitted : s'.committed = s.committed)
      (hchannel : s'.channel = s.channel) : Moves s s' a
  | moved (t : ℕ) (sent new : List Envelope) (ht : a.task = some t)
      (htasks : ∃ task, s'.tasks = Function.update s.tasks t task)
      (hcommitted : s'.committed = s.committed ++ new)
      (hchannel : s'.channel = s.channel ++ sent)
      (hle : (sent : Multiset Envelope) + ((s'.tasks t).ws_events : Multiset Envelope)
        ≤ (new : Multiset Envelope) + ((s.tasks t).ws_events : Multiset Envelope)) :
      Moves s s' a

/-- A task that stops, or goes on with nothing staged, broadcasts nothing. -/
theorem Moves.park {t : ℕ} {phase : Phase} (ht : a.task = some t) :
    Moves s (s.park t phase) a :=
  .moved t [] [] ht ⟨_, rfl⟩ (by simp [Sys.park]) (by simp [Sys.park]) (by simp [Sys.park])

/-- A commit stages what it commits. -/
theorem Moves.commit {t e : ℕ} {rows : ExecutionRows} {events : List Envelope} {phase : Phase}
    (ht : a.task = some t) : Moves s (s.commit t e rows events phase) a := by
  refine .moved t [] events ht ⟨_, rfl⟩ rfl (by simp [Sys.commit]) ?_
  simp only [Sys.commit, Function.update_self, Multiset.coe_nil, zero_add]
  exact Multiset.le_add_right _ _

/-- What a step does to events: nothing, or one task broadcasts some and stages some. A
commit stages its events, a flush takes one to the channel, a task that stops drops the
rest. The multisets only count, so the order in which tasks flush does not matter here. -/
theorem Effect.moves (h : Effect env s a s') : Moves s s' a := by
  cases h with
  | refused => exact .nothing rfl rfl rfl
  | delete => exact .nothing rfl rfl rfl
  | @start t vid owner input session pubs hidle hok =>
      refine .moved t [] session.ws_events rfl ⟨_, rfl⟩ rfl (by simp [Sys.commit]) ?_
      simp only [Sys.commit, Function.update_self, Multiset.coe_nil, zero_add]
      exact Multiset.le_add_right _ _
  | retry => exact .commit rfl
  | discard ha => rcases ha with rfl | rfl | rfl <;> exact .park rfl
  | discard_logged ha => rcases ha with rfl | rfl <;> exact .commit rfl
  | claim ha => rcases ha with ⟨rfl, -⟩ | ⟨rfl, -⟩ <;> exact .commit rfl
  | @recover_raised t m entry rows session hidle hentry hrows hsame hnodes =>
      -- the events of the first commit are out before the claim raises
      refine .moved t session.ws_events session.ws_events rfl ⟨_, rfl⟩ rfl rfl ?_
      simp only [Function.update_self, Multiset.coe_nil, add_zero]
      exact Multiset.le_add_right _ _
  | recover => exact .commit rfl
  | reclaim => exact .commit rfl
  | reclaim_discard => exact .park rfl
  | stop ha ht => exact .park ht
  | invoke => exact .park rfl
  | stale => exact .park rfl
  | complete => exact .commit rfl
  | @publish t e msg job owed sent events htask =>
      refine .moved t [] [] rfl ⟨_, rfl⟩ (by simp) (by simp) ?_
      simp only [Function.update_self, htask, le_refl]
  | @finish t e msg sent events rows htask hrows =>
      refine .moved t [] [] rfl ⟨_, rfl⟩ (by simp) (by simp) ?_
      simp only [Function.update_self, htask, le_refl]
  | @finish_gone t e msg events htask hrows =>
      refine .moved t [] [] rfl ⟨_, rfl⟩ (by simp) (by simp) ?_
      simp only [Function.update_self, htask, le_refl]
  | @flush t phase event events htask hphase =>
      refine .moved t [event] [] rfl ⟨_, rfl⟩ (by simp) rfl ?_
      simp only [Function.update_self, htask, Multiset.coe_nil, zero_add, Multiset.coe_add,
        List.singleton_append, le_refl]
  | @ack t m htask =>
      refine .moved t [] [] rfl ⟨_, rfl⟩ (by simp [Sys.park]) (by simp [Sys.park]) ?_
      simp [Sys.park]
  | reply => exact .park rfl

/-- What is staged, task by task. -/
theorem Sys.staged_events_update {t bound : ℕ} {task : Task} (ht : t < bound)
    (htasks : s'.tasks = Function.update s.tasks t task) :
    s'.staged_events bound + ((s.tasks t).ws_events : Multiset Envelope)
      = s.staged_events bound + ((s'.tasks t).ws_events : Multiset Envelope) := by
  have hmem : t ∈ Finset.range bound := Finset.mem_range.mpr ht
  have hrest : ∑ u ∈ (Finset.range bound).erase t, ((s'.tasks u).ws_events : Multiset Envelope)
      = ∑ u ∈ (Finset.range bound).erase t, ((s.tasks u).ws_events : Multiset Envelope) := by
    refine Finset.sum_congr rfl fun u hu => ?_
    rw [htasks, Function.update_of_ne (Finset.ne_of_mem_erase hu)]
  unfold Sys.staged_events
  rw [← Finset.add_sum_erase _ _ hmem, ← Finset.add_sum_erase _ _ hmem, hrest]
  abel

/-- Tasks that have nothing staged do not count. -/
theorem Sys.IdleFrom.staged_events {bound bound' : ℕ} (h : s.IdleFrom bound)
    (hle : bound ≤ bound') : s.staged_events bound' = s.staged_events bound := by
  refine (Finset.sum_subset (Finset.range_subset_range.mpr hle) fun t _ ht => ?_).symm
  rw [h t (not_lt.mp fun hlt => ht (Finset.mem_range.mpr hlt))]
  rfl

/-- What is on the channel and what is staged has been committed, each event
once. -/
def BroadcastInv (s : Sys) : Prop :=
  ∃ bound, s.IdleFrom bound ∧
    (s.channel : Multiset Envelope) + s.staged_events bound ≤ (s.committed : Multiset Envelope)

theorem BroadcastInv.effect (h : BroadcastInv s) (heff : Effect env s a s') : BroadcastInv s' := by
  obtain ⟨bound, hidle, hle⟩ := h
  cases heff.moves with
  | nothing htasks hcommitted hchannel =>
      refine ⟨bound, fun t ht => by rw [htasks, hidle t ht], ?_⟩
      simpa only [Sys.staged_events, htasks, hcommitted, hchannel] using hle
  | moved t sent new ht htasks hcommitted hchannel hmoved =>
      obtain ⟨task, htasks⟩ := htasks
      refine ⟨max bound (t + 1), fun u hu => ?_, ?_⟩
      · have hne : u ≠ t := by omega
        rw [htasks, Function.update_of_ne hne]
        exact hidle u (by omega)
      · have hsum := Sys.staged_events_update (show t < max bound (t + 1) by omega) htasks
        rw [hidle.staged_events (le_max_left _ _)] at hsum
        rw [hchannel, hcommitted, ← Multiset.coe_add, ← Multiset.coe_add]
        refine le_of_add_le_add_right (a := ((s.tasks t).ws_events : Multiset Envelope)) ?_
        calc (s.channel : Multiset Envelope) + sent + s'.staged_events (max bound (t + 1))
              + (s.tasks t).ws_events
            = (s.channel + s.staged_events bound) + (sent + (s'.tasks t).ws_events) := by
                rw [add_assoc, hsum, add_add_add_comm]
          _ ≤ s.committed + (new + (s.tasks t).ws_events) := add_le_add hle hmoved
          _ = s.committed + new + (s.tasks t).ws_events := by rw [add_assoc]

end Broadcast

/-- **Every event is broadcast at most once, and only after its commit.** In every run of
either alphabet, with crashes, duplicate deliveries and recovery, the events on the
channel are, with multiplicity, among the committed ones. An event is in at most one place
at a time, the buffer of the task that staged it or the channel, and it leaves the buffer
when it is broadcast. So what is on the channel together with all that is still staged is
no more than what was committed, and this is kept by every step ([`BroadcastInv`]). -/
theorem broadcast_once (env : Env) (s : Sys)
    (hrun : Reaches (Sys.step env) (fun _ _ => True) Sys.init s) :
    (s.channel : Multiset Envelope) ≤ (s.committed : Multiset Envelope) := by
  have hinv : BroadcastInv s := by
    refine Sys.invariant_of_effect BroadcastInv hrun typed_init ?_ ?_
      fun u a v _ hu _ heff => hu.effect heff
    · exact ⟨0, fun _ _ => rfl, by simp [Sys.staged_events, Sys.init]⟩
    · rintro u clock ⟨bound, hidle, hle⟩
      exact ⟨bound, hidle, hle⟩
  obtain ⟨bound, -, hle⟩ := hinv
  exact (Multiset.le_add_right _ _).trans hle

/-- A worker dies between two broadcasts of its claim. -/
theorem broadcast_once_solo :
    ∃ s : Sys, s.channel.length = 1 ∧ s.committed.length = 5 ∧
      (s.channel : Multiset Envelope) ≤ (s.committed : Multiset Envelope) := by
  have hlen : (run (restrict (Sys.step (env_of solo)) fun _ _ => true) Sys.init
      [.start 0 0 none 0, .publish 0, .claim 1 0, .flush 1, .crash 1]).map
        (fun s => (s.channel.length, s.committed.length)) = some (1, 5) := by decide +kernel
  obtain ⟨s, hs, hlen⟩ := Option.map_eq_some_iff.mp hlen
  rw [Prod.mk.injEq] at hlen
  exact ⟨s, hlen.1, hlen.2, broadcast_once (env_of solo) s
    ((reaches_of_run hs).mono fun _ _ _ => trivial)⟩

end EventFlow
