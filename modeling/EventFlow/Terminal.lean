/-
How often an execution ends.

`process_job` tests `execution.status == RUNNING` on the instance it loaded
after its claim, and the `SELECT ... FOR UPDATE` before the test does not
refresh it. [`Effect.ends_cases`] says what a step, of either alphabet, does to
an execution row and to the terminal `execution_updated` events: nothing, or
the end of one execution by a task whose instance said RUNNING. Where that
instance is not outdated ([`Sys.current`]) an execution ends at most once;
[`not_ends_once`] is the run of two workers in which it ends twice.
-/
import EventFlow.Safety

set_option autoImplicit false

namespace EventFlow

open Transition

/-- The terminal `execution_updated` events of one execution. -/
def ends_of (e : ℕ) (events : List Envelope) : List Envelope :=
  (terminal_events events).filter fun event => event.execution_id = e

theorem ends_of_append (e : ℕ) (events new : List Envelope) :
    ends_of e (events ++ new) = ends_of e events ++ ends_of e new := by
  simp only [ends_of, terminal_events, List.filter_append]

theorem ends_of_eq_nil {e : ℕ} {events : List Envelope} (h : terminal_events events = []) :
    ends_of e events = [] := by
  rw [ends_of, h, List.filter_nil]

section Ends

variable {env : Env} {s s' : Sys} {a : Action}

/-- **What a step does to the execution rows.** The only way for an execution row to
change after its start is a completion that ends it, and this writes the one terminal
event of its transaction. The columns are those of the instance it has loaded, flushed
over the row as it is by then. -/
theorem Effect.ends_cases (h : Effect env s a s') :
    (∃ events, s'.committed = s.committed ++ events ∧ terminal_events events = [] ∧
      ∀ e rows', s'.executions e = some rows' →
        (∃ rows, s.executions e = some rows ∧ rows'.execution = rows.execution) ∨
        (e = s.next_execution_id ∧ s'.next_execution_id = s.next_execution_id + 1 ∧
          rows'.execution.status = .RUNNING ∧ rows'.execution.finished_at = none)) ∨
    ∃ t result m context execution rows rows' status events,
      a = .complete t result ∧ (s.tasks t).phase = .invoked m context execution ∧
      s.executions context.execution_id = some rows ∧ execution.status = .RUNNING ∧
      (status = .SUCCEEDED ∨ status = .FAILED) ∧
      s'.executions = Function.update s.executions context.execution_id (some rows') ∧
      rows'.execution = execution.flush (execution.enter status s.clock) rows.execution ∧
      s'.committed = s.committed ++ events ∧
      terminal_events events = [⟨context.execution_id, s.clock, .execution_updated status⟩] := by
  have same : s'.committed = s.committed → s'.executions = s.executions →
      ∃ events, s'.committed = s.committed ++ events ∧ terminal_events events = [] ∧
        ∀ e rows', s'.executions e = some rows' →
          (∃ rows, s.executions e = some rows ∧ rows'.execution = rows.execution) ∨
          (e = s.next_execution_id ∧ s'.next_execution_id = s.next_execution_id + 1 ∧
            rows'.execution.status = .RUNNING ∧ rows'.execution.finished_at = none) := by
    intro hc he
    refine ⟨[], by rw [hc, List.append_nil], rfl, fun e rows' hrows' => .inl ⟨rows', ?_, rfl⟩⟩
    rwa [he] at hrows'
  -- rows are written, the execution row is not
  have wrote : ∀ {e₀ : ℕ} {rows₀ rows₁ : ExecutionRows} {events : List Envelope},
      s.executions e₀ = some rows₀ →
      s'.executions = Function.update s.executions e₀ (some rows₁) →
      rows₁.execution = rows₀.execution → s'.committed = s.committed ++ events →
      terminal_events events = [] →
      ∃ events, s'.committed = s.committed ++ events ∧ terminal_events events = [] ∧
        ∀ e rows', s'.executions e = some rows' →
          (∃ rows, s.executions e = some rows ∧ rows'.execution = rows.execution) ∨
          (e = s.next_execution_id ∧ s'.next_execution_id = s.next_execution_id + 1 ∧
            rows'.execution.status = .RUNNING ∧ rows'.execution.finished_at = none) := by
    intro e₀ rows₀ rows₁ events hrows₀ hupd hexec hc hev
    refine ⟨events, hc, hev, fun e rows' hrows' => .inl ?_⟩
    rw [hupd] at hrows'
    by_cases he : e = e₀
    · subst he
      rw [Function.update_self, Option.some.injEq] at hrows'
      exact ⟨rows₀, hrows₀, hrows' ▸ hexec⟩
    · rw [Function.update_of_ne he] at hrows'
      exact ⟨rows', hrows', rfl⟩
  cases h with
  -- an execution that is new has not ended
  | @start t vid owner input session pubs hidle hok =>
      obtain ⟨version, -, -, -, -, hst, hfin, -, -, -, hev, -⟩ := start_execution_spec hok
      refine .inl ⟨session.ws_events, rfl, hev, fun e rows' hrows' => ?_⟩
      by_cases he : e = s.next_execution_id
      · subst he
        simp only [Sys.commit, Function.update_self, Option.some.injEq] at hrows'
        subst hrows'
        exact .inr ⟨rfl, rfl, hst, hfin⟩
      · simp only [Sys.commit, Function.update_of_ne he] at hrows'
        exact .inl ⟨rows', hrows', rfl⟩
  | @delete e₀ owner =>
      refine .inl ⟨[], (List.append_nil _).symm, rfl, fun e rows' hrows' => .inl ?_⟩
      by_cases he : e = e₀
      · subst he
        simp at hrows'
      · simp only [Function.update_of_ne he] at hrows'
        exact ⟨rows', hrows', rfl⟩
  | @complete t m result context execution rows d node_def session pubs hphase hrows hlookup
      hsteps hends hdone =>
      cases hends with
      | stays hexec hev =>
          have hexec : session.execution = execution := hexec
          exact .inl (wrote hrows rfl (by simp only [hexec, Execution.flush_untouched]) rfl hev)
      | ends status hst hr hexec hev =>
          have hexec : session.execution = execution.enter status s.clock := hexec
          exact .inr ⟨t, result, m, context, execution, rows, _, status, session.ws_events, rfl,
            hphase, hrows, hr, hst, rfl, by rw [hexec], rfl, hev⟩
  | retry hidle hrows hkey hst hsame hnodes =>
      exact .inl (wrote hrows rfl rfl rfl hsame.terminal_events)
  | discard_logged ha hidle hentry hrows hst hsame hnodes =>
      exact .inl (wrote hrows rfl rfl rfl hsame.terminal_events)
  | claim ha hidle hentry hrows hkey hsame hnodes =>
      exact .inl (wrote hrows rfl rfl rfl hsame.terminal_events)
  | recover_raised hidle hentry hrows hsame hnodes =>
      exact .inl (wrote hrows rfl rfl rfl hsame.terminal_events)
  | recover hidle hentry hrows hkey hst hsame =>
      exact .inl (wrote hrows rfl rfl rfl hsame.terminal_events)
  | reclaim htask hrows hkey hst hsame =>
      exact .inl (wrote hrows rfl rfl rfl hsame.terminal_events)
  | finish htask hrows =>
      exact .inl (wrote hrows rfl rfl (List.append_nil _).symm rfl)
  | _ => exact .inl (same rfl rfl)

/-- What holds of every execution when no outdated instance is written. -/
structure EndsInv (s : Sys) : Prop where
  /-- A RUNNING execution has not ended. -/
  running : ∀ e rows, s.executions e = some rows → rows.execution.status = .RUNNING →
    rows.execution.finished_at = none ∧ ends_of e s.committed = []
  /-- No execution has ended twice. -/
  once : ∀ e, (ends_of e s.committed).length ≤ 1
  /-- Nothing has been said about executions to come. -/
  fresh : ∀ e, s.next_execution_id ≤ e → ends_of e s.committed = []

/-- One event about `e₀` is none about any other execution. -/
theorem ends_of_single {e e₀ : ℕ} {events : List Envelope} {now : ℕ} {status : ExecutionStatus}
    (h : terminal_events events = [⟨e₀, now, .execution_updated status⟩]) :
    ends_of e events = if e₀ = e then [⟨e₀, now, .execution_updated status⟩] else [] := by
  rw [ends_of, h]
  by_cases he : e₀ = e
  · simp [he]
  · simp [he]

/-- An end comes from an instance that says RUNNING. If the instance is current, the row
says so too, and then the execution has not ended before; after the step the row says
RUNNING no more, and its first end is the only one. -/
theorem EndsInv.effect (h : EndsInv s) (heff : Effect env s a s') (ht : s.Typed env)
    (hcur : s.current a = true) : EndsInv s' := by
  rcases heff.ends_cases with ⟨events, hc, hev, hrows⟩ |
    ⟨t, result, m, context, execution, rows, rows', status, events, rfl, hphase, hrows, hrun,
      hst, hupd, hexec, hc, hev⟩
  · have hends : ∀ e, ends_of e s'.committed = ends_of e s.committed := by
      intro e
      rw [hc, ends_of_append, ends_of_eq_nil hev, List.append_nil]
    refine ⟨fun e rows' hr hst => ?_, fun e => hends e ▸ h.once e, fun e he => ?_⟩
    · rcases hrows e rows' hr with ⟨rows, hr, heq⟩ | ⟨he, -, -, hfin⟩
      · rw [hends, heq]
        exact h.running e rows hr (heq ▸ hst)
      · rw [hends]
        exact ⟨hfin, h.fresh e he.ge⟩
    · rw [hends]
      exact h.fresh e (heff.next_le.trans he)
  · -- the condition is used here: the row is RUNNING, so no end has been written
    have hlive := h.running _ rows hrows (Sys.current_complete hcur hphase hrows hrun)
    have hends : ∀ e, ends_of e s'.committed = ends_of e s.committed
        ++ if context.execution_id = e then
          [⟨context.execution_id, s.clock, .execution_updated status⟩] else [] := by
      intro e
      rw [hc, ends_of_append, ends_of_single hev]
    refine ⟨fun e r hr hrn => ?_, fun e => ?_, fun e he => ?_⟩
    · rw [hupd] at hr
      by_cases he : e = context.execution_id
      · subst he
        rw [Function.update_self, Option.some.injEq] at hr
        subst hr
        have hne : status ≠ .RUNNING := by rcases hst with rfl | rfl <;> simp
        rw [hexec, flush_enter_status hrun hne] at hrn
        exact absurd hrn hne
      · rw [Function.update_of_ne he] at hr
        rw [hends, if_neg (Ne.symm he), List.append_nil]
        exact h.running e r hr hrn
    · rw [hends]
      by_cases he : context.execution_id = e
      · subst he
        rw [if_pos rfl, hlive.2]
        exact le_rfl
      · rw [if_neg he, List.append_nil]
        exact h.once e
    · have hlt := ht.lt hrows
      have := heff.next_le
      rw [hends, if_neg (by omega), List.append_nil]
      exact h.fresh e (by omega)

/-- Rows of an execution that is not new were there before. -/
theorem Effect.was_stored {e : ℕ} {rows' : ExecutionRows} (heff : Effect env s a s')
    (hrows' : s'.executions e = some rows') (he : e < s.next_execution_id) :
    ∃ rows, s.executions e = some rows := by
  rcases heff.ends_cases with ⟨events, -, -, hall⟩ |
    ⟨t, result, m, context, execution, rows₁, rows₁', status, events, -, -, hrows₁, -, -, hupd,
      -, -, -⟩
  · rcases hall e rows' hrows' with ⟨rows, hrows, -⟩ | ⟨hnew, -, -, -⟩
    · exact ⟨rows, hrows⟩
    · omega
  · by_cases hec : e = context.execution_id
    · exact ⟨rows₁, hec ▸ hrows₁⟩
    · rw [hupd, Function.update_of_ne hec] at hrows'
      exact ⟨rows', hrows'⟩

/-- What a step that writes no outdated instance does to an execution that has
ended: nothing. -/
theorem Effect.ended_stays {e : ℕ} {rows rows' : ExecutionRows} (heff : Effect env s a s')
    (ht : s.Typed env) (hcur : s.current a = true) (hrows : s.executions e = some rows)
    (hrows' : s'.executions e = some rows') (hst : rows.execution.status ≠ .RUNNING) :
    rows'.execution = rows.execution := by
  rcases heff.ends_cases with ⟨events, -, -, hall⟩ |
    ⟨t, result, m, context, execution, rows₁, rows₁', status, events, rfl, hphase, hrows₁, hrun,
      -, hupd, -, -, -⟩
  · rcases hall e rows' hrows' with ⟨r, hr, heq⟩ | ⟨he, -, -, -⟩
    · rw [hrows, Option.some.injEq] at hr
      rw [heq, hr]
    · have := ht.lt hrows
      omega
  · have he : e ≠ context.execution_id := by
      rintro rfl
      rw [hrows, Option.some.injEq] at hrows₁
      subst hrows₁
      exact hst (Sys.current_complete hcur hphase hrows hrun)
    rw [hupd, Function.update_of_ne he, hrows, Option.some.injEq] at hrows'
    rw [hrows']

end Ends

/-- Between two states of a run an execution that has ended stays as it is, its
`finished_at` is only written while it is RUNNING and has none, and at most one
terminal event has been staged for it. -/
def Sys.EndsOnce (s₀ s : Sys) : Prop :=
  (∀ e rows₀ rows, s₀.executions e = some rows₀ → s.executions e = some rows →
    (rows₀.execution.status ≠ .RUNNING → rows.execution.status = rows₀.execution.status ∧
      rows.execution.finished_at = rows₀.execution.finished_at) ∧
    (rows.execution.finished_at ≠ rows₀.execution.finished_at →
      rows₀.execution.status = .RUNNING ∧ rows₀.execution.finished_at = none)) ∧
  ∀ e, (ends_of e s.committed).length ≤ 1

/-- **One terminal transition per execution**, in every run in which no worker completes a
node with an instance that says RUNNING when the row does not any more. Two facts are
followed along the run: the invariant, and that a row which is not RUNNING any more is not
written again. -/
theorem ends_once_of_current (env : Env) (s₀ s : Sys)
    (h₀ : Reaches (Sys.step env) (fun s a => s.current a = true) Sys.init s₀)
    (hrun : Reaches (Sys.step env) (fun s a => s.current a = true) s₀ s) : s₀.EndsOnce s := by
  have ht₀ := typed_of_reaches h₀
  have hclock : ∀ (u : Sys) clock, EndsInv u → EndsInv { u with clock := clock } :=
    fun _ _ h => ⟨h.running, h.once, h.fresh⟩
  have hinv₀ : EndsInv s₀ := by
    refine Sys.invariant_of_effect EndsInv h₀ typed_init ⟨?_, ?_, ?_⟩ hclock
      fun u a v ht hinv hcur heff => hinv.effect heff ht hcur
    · simp [Sys.init]
    · simp [Sys.init, ends_of, terminal_events]
    · simp [Sys.init, ends_of, terminal_events]
  have hinv : EndsInv s := Sys.invariant_of_effect EndsInv hrun ht₀ hinv₀ hclock
    fun u a v ht hinv hcur heff => hinv.effect heff ht hcur
  refine ⟨fun e rows₀ rows hrows₀ hrows => ?_, hinv.once⟩
  have hstays : rows₀.execution.status ≠ .RUNNING → rows.execution = rows₀.execution := by
    intro hst
    refine (Sys.invariant_of_effect (fun u => e < u.next_execution_id ∧
      ∀ r, u.executions e = some r → r.execution = rows₀.execution) hrun ht₀
      ⟨ht₀.lt hrows₀, fun r hr => ?_⟩ (fun _ _ h => h) ?_).2 rows hrows
    · rw [hrows₀, Option.some.injEq] at hr
      rw [hr]
    · rintro u a v ht ⟨hlt, hall⟩ hcur heff
      refine ⟨hlt.trans_le heff.next_le, fun r' hr' => ?_⟩
      obtain ⟨r, hr⟩ := heff.was_stored hr' hlt
      rw [heff.ended_stays ht hcur hr hr' (by rwa [hall r hr]), hall r hr]
  refine ⟨fun hst => ⟨by rw [hstays hst], by rw [hstays hst]⟩, fun hne => ?_⟩
  have hr : rows₀.execution.status = .RUNNING := by
    by_contra hst
    exact hne (by rw [hstays hst])
  exact ⟨hr, (hinv₀.running e rows₀ hrows₀ hr).1⟩

/-- Two nodes side by side, one attempt each. -/
def pair : WorkflowDefinition where
  name := "pair"
  nodes := [node_a, node_b]
  default_retry_policy := some once

/-- Both workers load the execution before either of them fails. -/
def pair_run : List Action :=
  [.start 0 0 none 0, .publish 0, .publish 0,
    .claim 1 0, .flush 1, .flush 1, .invoke 1, .claim 2 1, .flush 2, .flush 2, .invoke 2,
    .complete 1 failed, .complete 2 failed]

/-- Two workers that fail with instances loaded before the first failure end the
execution twice. -/
theorem not_ends_once : ¬ ∀ (env : Env) (s₀ s : Sys),
    Reaches (Sys.step env) (fun _ _ => True) Sys.init s₀ →
    Reaches (Sys.step env) (fun _ _ => True) s₀ s → s₀.EndsOnce s := by
  intro h
  have hlen : (run (restrict (Sys.step (env_of pair)) fun _ _ => true) Sys.init pair_run).map
      (fun s => (ends_of 0 s.committed).length) = some 2 := by decide +kernel
  obtain ⟨s, hs, hlen⟩ := Option.map_eq_some_iff.mp hlen
  have hrun := (reaches_of_run hs).mono fun _ _ _ => trivial
  have := (h (env_of pair) Sys.init s .refl hrun).2 0
  omega

/-- One failure, with the instance of the only worker. -/
theorem ends_once_of_current_pair :
    ∃ s, run (restrict (Sys.step (env_of pair)) Sys.current) Sys.init (pair_run.take 12) = some s ∧
      s.execution_status 0 = some .FAILED ∧ (ends_of 0 s.committed).length ≤ 1 := by
  have hst : (run (restrict (Sys.step (env_of pair)) Sys.current) Sys.init (pair_run.take 12)).bind
      (fun s => s.execution_status 0) = some .FAILED := by decide +kernel
  obtain ⟨s, hs, hst⟩ := Option.bind_eq_some_iff.mp hst
  exact ⟨s, hs, hst, (ends_once_of_current (env_of pair) Sys.init s .refl (reaches_of_run hs)).2 0⟩

end EventFlow
