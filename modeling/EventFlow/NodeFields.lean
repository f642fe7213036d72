/-
What a node row says about its past.

`output_payload`, `error_message` and `finished_at` are written in different
places and reset in none: a completion assigns one payload field, a transition
to FAILED or to an end sets `finished_at`, and a node that goes back to QUEUED
keeps all three. [`FieldsMatch`] is what a reader of the row expects. The
completions that count are in no row, so it is stated against a history of
them ([`Sys.completions`]).

It holds in every run in which no failed node goes back to the queue
([`fields_match_of_no_requeue`]). A node that fails and then succeeds keeps the
error ([`succeeded_node_keeps_error`]).
-/
import EventFlow.Ledger

set_option autoImplicit false

namespace EventFlow

open Transition

/-! ## The history -/

/-- A completion that was committed. -/
structure Completion where
  execution_id : ℕ
  node_id : String
  result : ExecutorResult

/-- The completion that a step commits: its task goes on to publish. A result
that comes too late leads to an ack. -/
def Sys.completions (s : Sys) (a : Action) (s' : Sys) : List Completion :=
  match a with
  | .complete t result =>
    match (s.tasks t).phase, (s'.tasks t).phase with
    | .invoked _ context _, .publishing .. =>
      [⟨context.execution_id, context.node_id, result⟩]
    | _, _ => []
  | _ => []

/-- The results of a node, oldest first. -/
def results_of (log : List Completion) (e : ℕ) (n : String) : List ExecutorResult :=
  (log.filter fun c => decide (c.execution_id = e ∧ c.node_id = n)).map Completion.result

/-- The result of the last completion. -/
def last_result (log : List Completion) (e : ℕ) (n : String) : Option ExecutorResult :=
  (results_of log e n).getLast?

/-- The result of the last failed attempt. -/
def last_failure (log : List Completion) (e : ℕ) (n : String) : Option ExecutorResult :=
  ((results_of log e n).filter fun result => !result.success).getLast?

section History

variable {log : List Completion} {e : ℕ} {n : String} {result : ExecutorResult}

theorem results_of_append_self :
    results_of (log ++ [⟨e, n, result⟩]) e n = results_of log e n ++ [result] := by
  simp [results_of]

/-- A completion of another node is none of this one's. -/
theorem results_of_append_other {c : Completion} (h : ¬ (c.execution_id = e ∧ c.node_id = n)) :
    results_of (log ++ [c]) e n = results_of log e n := by
  simp [results_of, h]

end History

/-! ## What a row should say -/

/-- The fields of a node match its status. -/
structure FieldsMatch (log : List Completion) (e : ℕ) (n : String) (node : NodeExecution) :
    Prop where
  /-- A SUCCEEDED node has the output of its last completion and no error. -/
  succeeded : node.status = .SUCCEEDED → ∃ result, last_result log e n = some result ∧
    node.output_payload = some result.output ∧ node.error_message = none
  /-- A DEAD_LETTERED node has the error of its last failed attempt. -/
  dead : node.status = .DEAD_LETTERED → ∃ result, last_failure log e n = some result ∧
    node.error_message = result.error
  /-- A node that is still to be done is not finished. -/
  unfinished : node.status = .PENDING ∨ node.status = .QUEUED ∨ node.status = .RUNNING →
    node.finished_at = none

/-- The step puts a failed node back in the queue: it completes a RUNNING node
with a failure while attempts are left, or it is a `retry_node` that the owner
makes of a DEAD_LETTERED node. -/
def Sys.requeues (env : Env) (s : Sys) : Action → Bool
  | .complete t result =>
    match (s.tasks t).phase with
    | .invoked _ context _ =>
      match s.executions context.execution_id with
      | some rows => !result.success &&
          decide ((rows.nodes.row context.node_id).status = .RUNNING ∧
            (rows.nodes.row context.node_id).attempt
              < (rows.nodes.row context.node_id).max_attempts)
      | none => false
    | _ => false
  | .retry _ e n owner =>
    match s.executions e with
    | some rows => decide (n ∈ rows.nodes.keys ∧ env.owner rows.execution = some owner ∧
        (rows.nodes.row n).status = .DEAD_LETTERED)
    | none => false
  | _ => false

/-! ## The invariant -/

/-- With the fact that carries it: a node that is still to be done has not
failed. -/
structure CleanRow (log : List Completion) (e : ℕ) (n : String) (node : NodeExecution) : Prop
    extends FieldsMatch log e n node where
  clean : node.status = .PENDING ∨ node.status = .QUEUED ∨ node.status = .RUNNING →
    node.error_message = none

section Row

variable {log : List Completion} {e : ℕ} {n : String} {node : NodeExecution} {now : ℕ}

/-- The message id is in no field that matters. -/
theorem CleanRow.message_id (h : CleanRow log e n node) (id : Option ℕ) :
    CleanRow log e n { node with redis_message_id := id } :=
  ⟨⟨h.succeeded, h.dead, h.unfinished⟩, h.clean⟩

/-- A completion of another node does not matter. -/
theorem CleanRow.append (h : CleanRow log e n node) {c : Completion}
    (hc : ¬ (c.execution_id = e ∧ c.node_id = n)) : CleanRow (log ++ [c]) e n node := by
  refine ⟨⟨?_, ?_, h.unfinished⟩, h.clean⟩
  · unfold last_result
    rw [results_of_append_other hc]
    exact h.succeeded
  · unfold last_failure
    rw [results_of_append_other hc]
    exact h.dead

/-- A row at a status before its end, with neither error nor end. -/
theorem CleanRow.of_unfinished (herror : node.error_message = none)
    (hfinished : node.finished_at = none) (hs : node.status ≠ .SUCCEEDED)
    (hd : node.status ≠ .DEAD_LETTERED) : CleanRow log e n node :=
  ⟨⟨fun h => absurd h hs, fun h => absurd h hd, fun _ => hfinished⟩, fun _ => herror⟩

/-- Going on to QUEUED or RUNNING, or being SKIPPED. -/
theorem CleanRow.enter (h : CleanRow log e n node)
    (hst : node.status = .PENDING ∨ node.status = .QUEUED ∨ node.status = .RUNNING)
    {to_status : NodeExecutionStatus}
    (hto : to_status = .QUEUED ∨ to_status = .RUNNING ∨ to_status = .SKIPPED) :
    CleanRow log e n (node.enter to_status now) := by
  have herror := h.clean hst
  have hfinished := h.unfinished hst
  rcases hto with rfl | rfl | rfl
  · exact .of_unfinished herror hfinished (by simp) (by simp)
  · exact .of_unfinished herror hfinished (by simp) (by simp)
  · refine ⟨⟨?_, ?_, ?_⟩, ?_⟩ <;> simp

/-- A success after no failure. -/
theorem CleanRow.succeed (h : CleanRow log e n node) (hst : node.status = .RUNNING)
    {result : ExecutorResult} :
    CleanRow (log ++ [⟨e, n, result⟩]) e n (node.succeed result.output now) := by
  have herror := h.clean (.inr (.inr hst))
  refine ⟨⟨fun _ => ⟨result, ?_, rfl, herror⟩, ?_, ?_⟩, ?_⟩
  · rw [last_result, results_of_append_self, List.getLast?_concat]
  · simp [NodeExecution.succeed]
  · simp [NodeExecution.succeed]
  · simp [NodeExecution.succeed]

/-- The end of the attempts. -/
theorem CleanRow.dead_letter {result : ExecutorResult} (hres : result.success = false) :
    CleanRow (log ++ [⟨e, n, result⟩]) e n (node.dead_letter result.error now) := by
  refine ⟨⟨?_, fun _ => ⟨result, ?_, rfl⟩, ?_⟩, ?_⟩
  · simp [NodeExecution.dead_letter]
  · rw [last_failure, results_of_append_self, List.filter_append]
    simp [hres]
  · simp [NodeExecution.dead_letter]
  · simp [NodeExecution.dead_letter]

end Row

/-- The rows of a new execution. -/
theorem Started.cleanRow {d : WorkflowDefinition} {rows : ExecutionRows} (h : Started d rows)
    (log : List Completion) (e : ℕ) (n : String) : CleanRow log e n (rows.nodes.row n) := by
  have hinit : CleanRow log e n (initial_node d n) := by
    unfold initial_node
    split
    · exact .of_unfinished rfl rfl (by simp) (by simp)
    · exact .of_unfinished rfl rfl (by simp) (by simp)
  by_cases hroot : n ∈ d.node_ids ∧ d.parent_ids n = []
  · obtain ⟨now, hrow⟩ := h.root n hroot.1 hroot.2
    rw [hrow]
    exact hinit.enter (.inl (initial_node_status d n)) (.inl rfl)
  · rw [h.other n hroot]
    exact hinit

/-- **A completion that does not go back to the queue** keeps all rows clean. Its own row
gets the one payload field that fits its new status, and an end; a requeue, which would
keep an error message beside a waiting status, is excluded. A row that is skipped or
queued has nothing in these columns yet. -/
theorem Completed.cleanRow {d : WorkflowDefinition} {node_def : Node} {m : String}
    {result : ExecutorResult} {nodes : Table String NodeExecution} {execution : Execution}
    {log : List Completion} {e now : ℕ} {session : Session} {pubs : List String}
    (h : Completed d node_def m result nodes execution e now session pubs)
    (hrows : ∀ n, CleanRow log e n (nodes.row n))
    (hno : ¬ (result.success = false ∧ (nodes.row m).attempt < (nodes.row m).max_attempts))
    (n : String) : CleanRow (log ++ [⟨e, m, result⟩]) e n (session.nodes.row n) := by
  -- the other rows do not hear of it
  have other : ∀ {k : String}, k ≠ m → CleanRow (log ++ [⟨e, m, result⟩]) e k (nodes.row k) :=
    fun hk => (hrows _).append fun hc => hk hc.2.symm
  have set : ∀ {node : NodeExecution}, CleanRow (log ++ [⟨e, m, result⟩]) e m node →
      ∀ k, CleanRow (log ++ [⟨e, m, result⟩]) e k ((nodes.set m node).row k) := by
    intro node hnode k
    by_cases hk : k = m
    · subst hk
      rw [Table.row_set_self]
      exact hnode
    · rw [Table.row_set_of_ne _ _ hk]
      exact other hk
  cases h with
  | succeed targets _ hkey hrun hres hT heff hdead hexec =>
      have hbefore : CleanRow (log ++ [⟨e, m, result⟩]) e n
          ((nodes.set m ((nodes.row m).succeed result.output now)).row n) :=
        set ((hrows m).succeed hrun) n
      rcases heff.cases n with ⟨-, hpending, hrow⟩ | ⟨-, hpending, -, hrow⟩ | ⟨-, -, hrow⟩
      · rw [hrow]
        exact hbefore.enter (.inl hpending) (.inr (.inr rfl))
      · rw [hrow]
        exact hbefore.enter (.inl hpending) (.inl rfl)
      · rw [hrow]
        exact hbefore
  | requeue hkey hrun hres hleft hnodes hdead hexec => exact absurd ⟨hres, hleft⟩ hno
  | bury hkey hrun hres hleft hnodes hdead hexec =>
      rw [hnodes]
      exact set (.dead_letter hres) n

/-! ## Runs -/

/-- All rows are clean. -/
def Sys.Clean (s : Sys) (log : List Completion) : Prop :=
  ∀ e rows, s.executions e = some rows → ∀ n, CleanRow log e n (rows.nodes.row n)

section Runs

variable {env : Env} {s s' : Sys} {a : Action} {log : List Completion}

/-- Only a completion is noted. -/
theorem completions_eq_nil (ha : ∀ t result, a ≠ .complete t result) :
    s.completions a s' = [] := by
  cases a with
  | complete t result => exact absurd rfl (ha t result)
  | _ => rfl

/-- A result that leaves nothing to publish is not noted. -/
theorem completions_park {t : ℕ} {result : ExecutorResult} {phase : Phase}
    (h : phase = .idle ∨ ∃ m, phase = .returning m) :
    s.completions (.complete t result) (s.park t phase) = [] := by
  simp only [Sys.completions, Sys.park, Function.update_self]
  rcases h with rfl | ⟨m, rfl⟩
  · split <;> simp_all
  · split <;> simp_all

/-- `retry_node` changes a row only where it puts a dead node back. -/
theorem requeues_of_retry {t e owner : ℕ} {n : String}
    (h : s.retry env t e n owner = some s') :
    s' = s ∨ s.requeues env (.retry t e n owner) = true := by
  unfold Sys.retry at h
  split at h
  · split at h
    · cases h
      exact .inl rfl
    · rename_i rows hrows
      dsimp only at h
      split at h
      · cases h
        exact .inl rfl
      · rename_i session jobs hok
        obtain ⟨⟨node, hget, howner, hst⟩, -⟩ := retry_node_ok hok
        obtain ⟨hkey, rfl⟩ := Table.get?_eq_some_iff.mp hget
        refine .inr ?_
        simp only [Sys.requeues, hrows, decide_eq_true_eq]
        exact ⟨hkey, howner, hst⟩
  · cases h

theorem Sys.Clean.complete {t : ℕ} {result : ExecutorResult} (h : s.Clean log)
    (heff : Effect env s (.complete t result) s')
    (hno : s.requeues env (.complete t result) = false) :
    s'.Clean (log ++ s.completions (.complete t result) s') := by
  rcases heff.complete_cases with (rfl | ⟨m, rfl⟩) |
    ⟨m, context, execution, rows, d, node_def, session, pubs, hphase, hrows, hdone, rfl⟩
  · rw [completions_park (.inl rfl), List.append_nil]
    exact h
  · rw [completions_park (.inr ⟨_, rfl⟩), List.append_nil]
    exact h
  · have hnote : ∀ {rows' : ExecutionRows} {events : List Envelope} {e : ℕ} {jobs : List Job}
        {msg : Option ℕ}, s.completions (.complete t result)
          (s.commit t context.execution_id rows' events (.publishing msg e jobs []))
        = [⟨context.execution_id, context.node_id, result⟩] := by
      intro rows' events e jobs msg
      simp only [Sys.completions, Sys.commit, hphase, Function.update_self]
    rw [hnote]
    intro e rows' hrows' n
    by_cases he : e = context.execution_id
    · subst he
      simp only [Sys.commit, Function.update_self, Option.some.injEq] at hrows'
      subst hrows'
      refine hdone.cleanRow (h _ rows hrows) ?_ n
      rintro ⟨hres, hleft⟩
      simp [Sys.requeues, hphase, hrows, hres, hdone.running.2, hleft] at hno
    · simp only [Sys.commit, Function.update_of_ne he] at hrows'
      exact (h e rows' hrows' n).append fun hc => he hc.1.symm

/-- **One step of the atomic alphabet.** Other steps than completions write no payload
field; a manual retry would send a row with an error back to the queue, and it counts as
one of the steps that are excluded. -/
theorem Sys.Clean.step (h : s.Clean log) (ht : s.Typed env) (ha : a.atomic = true)
    (hno : s.requeues env a = false) (hact : s.act env a = some s') :
    s'.Clean (log ++ s.completions a s') := by
  have heff := effect_of_act ht hact
  by_cases hc : ∃ t result, a = .complete t result
  · obtain ⟨t, result, rfl⟩ := hc
    exact h.complete heff hno
  · rw [completions_eq_nil fun t result hc' => hc ⟨t, result, hc'⟩, List.append_nil]
    intro e rows' hrows' n
    rcases heff.rowsStep ht ha hrows' with
      ⟨t, vid, input, owner, session, pubs, -, -, hok, rfl⟩ | ⟨rows, d, hrows, hd, hstep⟩
    · obtain ⟨d, -, hstarted⟩ := started_of_start hok
      exact hstarted.cleanRow log e n
    · have hclean := h e rows hrows
      cases hstep with
      | quiet hexec hkeys hrow hdead =>
          obtain ⟨id, hrow⟩ := hrow n
          rw [hrow]
          exact (hclean n).message_id id
      | run m hkey hst =>
          by_cases hn : n = m
          · subst hn
            rw [Table.row_set_self]
            exact (hclean n).enter (.inr hst) (.inr (.inl rfl))
          · rw [Table.row_set_of_ne _ _ hn]
            exact hclean n
      | retry m hkey hst hretry =>
          obtain ⟨t, owner, rfl⟩ := hretry
          -- a retry that is refused changes nothing, any other one is excluded
          rcases requeues_of_retry hact with rfl | hyes
          · rw [hrows, Option.some.injEq] at hrows'
            rw [← hrows']
            exact hclean n
          · rw [hyes] at hno
            cases hno
      | complete hcomplete => exact absurd ⟨_, _, hcomplete⟩ hc

/-- Every run in which no failed node goes back to the queue. -/
theorem clean_of_run (hrun : Logged (Sys.step env) Sys.completions
      (fun u a => a.atomic = true ∧ u.requeues env a = false) (Sys.init, []) (s, log)) :
    s.Clean log := by
  refine (Reaches.invariant (fun u => u.1.Typed env ∧ u.1.Clean u.2) hrun
    ⟨typed_init, fun e rows hrows => by cases hrows⟩ ?_).2
  rintro ⟨u, l⟩ a ⟨v, l'⟩ ⟨htu, hu⟩ ⟨ha, hno⟩ hlogged
  obtain ⟨hs, rfl⟩ : u.step env a = some v ∧ l' = l ++ u.completions a v :=
    logged_eq_some_iff.mp hlogged
  refine ⟨typed_of_step htu hs, ?_⟩
  obtain ⟨w, hw, rfl⟩ := Option.map_eq_some_iff.mp hs
  -- the clock is in no row and in no note
  have hclean : w.Clean (l ++ u.completions a w) := hu.step htu ha hno hw
  exact hclean

end Runs

/-- **The fields of a node match its status**, in every run of atomic steps in which no
failed node goes back to the queue. [`CleanRow`] is a little stronger than the claim: it
also says that a row which has not been completed has none of the fields. Without this the
step of a completion could not be made. -/
theorem fields_match_of_no_requeue (env : Env) (s : Sys) (log : List Completion)
    (hrun : Logged (Sys.step env) Sys.completions
      (fun u a => a.atomic = true ∧ u.requeues env a = false) (Sys.init, []) (s, log))
    (e : ℕ) (rows : ExecutionRows) (hrows : s.executions e = some rows) (n : String) :
    FieldsMatch log e n (rows.nodes.row n) :=
  (clean_of_run hrun e rows hrows n).toFieldsMatch

/-- The state and the completions that a list of actions leads to under a
check. -/
def completions_run (env : Env) (check : Sys → Action → Bool) (as : List Action) :
    Option (Sys × List Completion) :=
  run (restrict (logged (Sys.step env) Sys.completions) fun s a => check s.1 a) (Sys.init, []) as

/-- The only attempt of the node fails. -/
theorem fields_match_of_no_requeue_solo :
    ∃ (s : Sys) (log : List Completion) (rows : ExecutionRows), s.executions 0 = some rows ∧
      (rows.nodes.row "a").status = .DEAD_LETTERED ∧
      ∃ result, last_failure log 0 "a" = some result ∧
        (rows.nodes.row "a").error_message = result.error := by
  have hst : (completions_run (env_of solo) (fun u a => a.atomic && !u.requeues (env_of solo) a)
      (solo_run.take 9)).bind (fun u => u.1.node_status 0 "a") = some .DEAD_LETTERED := by
    decide +kernel
  obtain ⟨⟨s, log⟩, hs, hst⟩ := Option.bind_eq_some_iff.mp hst
  obtain ⟨rows, hrows, -, hst⟩ := Sys.node_status_eq_some hst
  have hrun : Logged (Sys.step (env_of solo)) Sys.completions
      (fun u a => a.atomic = true ∧ u.requeues (env_of solo) a = false) (Sys.init, []) (s, log) :=
    (reaches_of_run hs).mono (by simp)
  have hall := fields_match_of_no_requeue (env_of solo) s log hrun 0 rows hrows "a"
  exact ⟨s, log, rows, hrows, hst, hall.dead hst⟩

/-- `a` fails, is retried by hand and succeeds: its row still has the error of
the first attempt. -/
theorem succeeded_node_keeps_error : ¬ ∀ (env : Env) (s : Sys) (log : List Completion),
    Logged (Sys.step env) Sys.completions (fun _ a => a.atomic = true) (Sys.init, []) (s, log) →
    ∀ e rows, s.executions e = some rows → ∀ n, FieldsMatch log e n (rows.nodes.row n) := by
  intro h
  have hst : (completions_run (env_of solo) (fun _ a => a.atomic) solo_run).bind (fun u =>
      (u.1.executions 0).bind fun rows => (rows.nodes.get? "a").map fun node =>
        (node.status, node.error_message)) = some (.SUCCEEDED, some "boom") := by decide +kernel
  obtain ⟨⟨s, log⟩, hs, hst⟩ := Option.bind_eq_some_iff.mp hst
  obtain ⟨rows, hrows, hst⟩ := Option.bind_eq_some_iff.mp hst
  obtain ⟨node, hnode, hst⟩ := Option.map_eq_some_iff.mp hst
  obtain ⟨-, rfl⟩ := Table.get?_eq_some_iff.mp hnode
  simp only [Prod.mk.injEq] at hst
  obtain ⟨-, -, -, hnone⟩ := (h (env_of solo) s log (reaches_of_run hs) 0 rows hrows "a").succeeded
    hst.1
  rw [hst.2] at hnone
  cases hnone

end EventFlow
