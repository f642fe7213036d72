/-
The attempts that `node_updated` events carry.

A row's attempt only grows, and every event carries the attempt its row has just
been given. So no committed event of a node has a higher attempt than the row has
now ([`AttemptsAnnounced`]), for every step of the atomic alphabet.
-/
import EventFlow.EventOrder

set_option autoImplicit false

namespace EventFlow

/-! ## What a unit of work announces -/

/-- No update in `events` has an attempt above `k`. -/
def AttemptsLe (e : ℕ) (n : String) (k : ℕ) (events : List Envelope) : Prop :=
  ∀ event ∈ node_events e n events, ∀ status attempt,
    event.data = .node_updated n status attempt → attempt ≤ k

/-- A unit of work lowers no attempt, and none of its events has an attempt above
the one it leaves behind. -/
def Session.Climbs (s s' : Session) (n : String) : Prop :=
  (s.nodes.row n).attempt ≤ (s'.nodes.row n).attempt ∧
    ∃ new, s'.ws_events = s.ws_events ++ new ∧
      AttemptsLe s.execution_id n (s'.nodes.row n).attempt new

section Attempts

variable {env : Env} {e k : ℕ} {n : String} {events events' : List Envelope}

theorem AttemptsLe.mono {k' : ℕ} (h : AttemptsLe e n k events) (hle : k ≤ k') :
    AttemptsLe e n k' events :=
  fun event hevent status attempt hdata => (h event hevent status attempt hdata).trans hle

theorem AttemptsLe.append (h : AttemptsLe e n k events) (h' : AttemptsLe e n k events') :
    AttemptsLe e n k (events ++ events') := by
  intro event hevent
  rw [node_events_append] at hevent
  rcases List.mem_append.mp hevent with hevent | hevent
  · exact h event hevent
  · exact h' event hevent

theorem AttemptsLe.of_nil (h : node_events e n events = []) : AttemptsLe e n k events := by
  intro event hevent
  rw [h] at hevent
  cases hevent

theorem AttemptsLe.of_sublist (h : AttemptsLe e n k events) (hsub : events'.Sublist events) :
    AttemptsLe e n k events' :=
  fun event hevent => h event ((hsub.filter _).subset hevent)

theorem NodeExecution.attempt_le_enter (node : NodeExecution) (to_status : NodeExecutionStatus)
    (now : ℕ) : node.attempt ≤ (node.enter to_status now).attempt := by
  rw [NodeExecution.enter_attempt]
  split
  · exact Nat.le_succ _
  · exact le_rfl

theorem NodeExecution.revert_attempt (node : NodeExecution) :
    node.revert.attempt = node.attempt := by
  unfold NodeExecution.revert
  split <;> rfl

/-- One step of a session. A transition may raise the attempt of its node, never lower it,
and stages the attempt it has given; so nothing that was staged before is above the row.
-/
theorem Session.Step.climbs {s s' : Session} (h : Session.Step s s') (n : String) :
    s.Climbs s' n := by
  cases h with
  | transition m from_status to_status hmove h =>
      obtain ⟨node, hget, -, rfl⟩ := transition_node_status_ok h
      obtain ⟨-, rfl⟩ := Table.get?_eq_some_iff.mp hget
      by_cases hn : n = m
      · subst hn
        have hrow : (((s.set_node n ((s.nodes.row n).enter to_status s.now)).stage_event
            (.node_updated n to_status
              ((s.nodes.row n).enter to_status s.now).attempt)).nodes.row n)
              = (s.nodes.row n).enter to_status s.now := Table.row_set_self ..
        refine ⟨by rw [hrow]; exact NodeExecution.attempt_le_enter .., _, rfl,
          fun event hevent => ?_⟩
        rw [hrow]
        have hmem := (List.mem_filter.mp hevent).1
        rw [List.mem_singleton] at hmem
        subst hmem
        rintro status attempt hdata
        cases hdata
        exact le_rfl
      · have hrow : (((s.set_node m ((s.nodes.row m).enter to_status s.now)).stage_event
            (.node_updated m to_status
              ((s.nodes.row m).enter to_status s.now).attempt)).nodes.row n)
              = s.nodes.row n := Table.row_set_of_ne _ _ hn
        refine ⟨hrow ▸ le_rfl, _, rfl, .of_nil ?_⟩
        simp [node_events, Envelope.about, Ne.symm hn]
  | transition_execution from_status to_status h =>
      obtain ⟨-, rfl⟩ := transition_execution_status_ok h
      exact ⟨le_rfl, _, rfl, .of_nil rfl⟩
  | payload m node output error hget =>
      obtain ⟨-, rfl⟩ := Table.get?_eq_some_iff.mp hget
      refine ⟨?_, [], by simp, .of_nil rfl⟩
      by_cases hn : n = m
      · subst hn
        rw [Session.set_node_nodes, Table.row_set_self]
      · rw [Session.set_node_nodes, Table.row_set_of_ne _ _ hn]
  | log => exact ⟨le_rfl, _, rfl, .of_nil rfl⟩
  | dead_letter => exact ⟨le_rfl, [], by simp, .of_nil rfl⟩

theorem Session.Steps.climbs {s s' : Session} (h : Session.Steps s s') (n : String) :
    s.Climbs s' n := by
  induction h with
  | refl => exact ⟨le_rfl, [], by simp, .of_nil rfl⟩
  | tail hprev hstep ih =>
      obtain ⟨hle, new, hnew, hbound⟩ := ih
      obtain ⟨hle', last, hlast, hbound'⟩ := hstep.climbs n
      rw [Session.Steps.sameFrame hprev |>.execution_id] at hbound'
      refine ⟨hle.trans hle', new ++ last, by rw [hlast, hnew, List.append_assoc], ?_⟩
      exact (hbound.mono hle').append hbound'

/-! ## Every run -/

/-- No committed event has an attempt above the one of its row. -/
def AttemptsAnnounced (s : Sys) : Prop :=
  ∀ e rows n, s.executions e = some rows →
    AttemptsLe e n (rows.nodes.row n).attempt s.committed

variable {s s' : Sys} {a : Action}

/-- A commit, from a session that has loaded the attempts of the rows. -/
theorem AttemptsAnnounced.commit (t : ℕ) (phase : Phase) {rows rows' : ExecutionRows}
    {loaded session : Session} (h : AttemptsAnnounced s) (hrows : s.executions e = some rows)
    (hsteps : Session.Steps loaded session) (hid : loaded.execution_id = e)
    (hnone : loaded.ws_events = [])
    (hloaded : ∀ n, (rows.nodes.row n).attempt = (loaded.nodes.row n).attempt)
    (hsaved : ∀ n, (session.nodes.row n).attempt = (rows'.nodes.row n).attempt) :
    AttemptsAnnounced (s.commit t e rows' session.ws_events phase) := by
  intro e' r n hr
  change AttemptsLe e' n _ (s.committed ++ session.ws_events)
  by_cases he : e' = e
  · subst he
    simp only [Sys.commit, Function.update_self, Option.some.injEq] at hr
    obtain ⟨hle, new, hnew, hbound⟩ := hsteps.climbs n
    rw [hnone, List.nil_append] at hnew
    rw [← hr, ← hsaved n, hnew]
    rw [← hloaded n] at hle
    exact ((h e' rows n hrows).mono hle).append (hid ▸ hbound)
  · simp only [Sys.commit, Function.update_of_ne he] at hr
    have hall := events_of_steps hsteps hnone
    rw [hid] at hall
    exact (h e' r n hr).append (.of_nil (node_events_of_ne hall he))

/-- What lowers no attempt and commits nothing. -/
theorem AttemptsAnnounced.congr (h : AttemptsAnnounced s)
    (hrows : ∀ e rows, s'.executions e = some rows → ∃ old, s.executions e = some old ∧
        ∀ n, (old.nodes.row n).attempt = (rows.nodes.row n).attempt)
    (hcommitted : s'.committed = s.committed) : AttemptsAnnounced s' := by
  intro e rows n hr
  obtain ⟨old, hold, heq⟩ := hrows e rows hr
  rw [hcommitted, ← heq n]
  exact h e old n hold

/-- One step. The events that a commit adds carry attempts of rows of the same session,
which are bounded by those it commits; the events there were before are bounded by the
rows before, and these only grow. A new execution starts without events, because its id is
new. -/
theorem AttemptsAnnounced.effect (h : AttemptsAnnounced s)
    (hfresh : ∀ event ∈ s.committed, event.execution_id < s.next_execution_id)
    (heff : Effect env s a s') (ha : a.atomic = true) : AttemptsAnnounced s' := by
  cases heff with
  | @start t vid owner input session pubs hidle hok =>
      obtain ⟨version, -, -, hsteps, -⟩ := start_execution_spec hok
      have hall : ∀ event ∈ session.ws_events, event.execution_id = s.next_execution_id :=
        events_of_steps hsteps rfl
      intro e' r n hr
      change AttemptsLe e' n _ (s.committed ++ session.ws_events)
      by_cases he : e' = s.next_execution_id
      · subst he
        simp only [Sys.commit, Function.update_self, Option.some.injEq] at hr
        obtain ⟨-, new, hnew, hbound⟩ := hsteps.climbs n
        have hnew : session.ws_events = new := hnew
        -- the id is new, so nothing has been told of it
        have hold : node_events s.next_execution_id n s.committed = [] := by
          refine List.filter_eq_nil_iff.mpr fun event hevent => ?_
          have hne := (hfresh event hevent).ne
          unfold Envelope.about
          split <;> simp [hne]
        rw [← hr, hnew]
        exact (AttemptsLe.of_nil hold).append hbound
      · simp only [Sys.commit, Function.update_of_ne he] at hr
        exact (h e' r n hr).append (.of_nil (node_events_of_ne hall he))
  | retry hidle hrows hkey hst hsame hnodes =>
      exact h.commit _ _ hrows hsame.steps rfl rfl (fun _ => rfl) fun n => by rw [hnodes]
  | discard_logged ha hidle hentry hrows hst hsame hnodes =>
      exact h.commit _ _ hrows hsame.steps rfl rfl (fun _ => rfl) fun n => by rw [hnodes]
  -- the revert of a recovery leaves the attempt
  | @claim _ t m entry rows session ha hidle hentry hrows hkey hsame hnodes =>
      refine h.commit _ _ hrows hsame.steps rfl rfl (fun n => ?_) fun n => by rw [hnodes]
      by_cases hn : n = entry.job.node_id
      · subst hn
        rw [Session.set_node_nodes, Table.row_set_self, NodeExecution.revert_attempt]
      · rw [Session.set_node_nodes, Table.row_set_of_ne _ _ hn]
        rfl
  | @recover_raised t m entry rows session hidle hentry hrows hsame hnodes =>
      have hcommit : AttemptsAnnounced (s.commit t entry.job.execution_id
          { rows with logs := rows.logs ++ session.new_logs } session.ws_events .idle) :=
        h.commit _ _ hrows hsame.steps rfl rfl (fun _ => rfl) fun n => by rw [hnodes]
      exact hcommit.congr (fun e r hr => ⟨r, hr, fun _ => rfl⟩) rfl
  | recover => cases ha
  | reclaim => cases ha
  | complete hphase hrows hlookup hsteps hends hdone =>
      exact h.commit _ _ hrows hsteps rfl rfl (fun _ => rfl) fun _ => rfl
  | @delete e owner =>
      refine h.congr (fun e' rows hr => ⟨rows, ?_, fun _ => rfl⟩) rfl
      by_cases he : e' = e
      · subst he
        simp at hr
      · simpa only [Function.update_of_ne he] using hr
  | @finish t e msg sent events rows htask hrows =>
      refine h.congr (fun e' r hr => ?_) rfl
      by_cases he : e' = e
      · subst he
        simp only [Function.update_self, Option.some.injEq] at hr
        subst hr
        refine ⟨rows, hrows, fun n => ?_⟩
        obtain ⟨id, hid⟩ := row_set_message_ids rows.nodes sent n
        rw [hid]
      · exact ⟨r, by simpa only [Function.update_of_ne he] using hr, fun _ => rfl⟩
  | _ => exact h.congr (fun e rows hr => ⟨rows, hr, fun _ => rfl⟩) rfl

end Attempts

end EventFlow
