/-
Dead-letter bookkeeping, with `services/dlq_service.py`.

`dead_letter_jobs` has no uniqueness constraint, and `retry_node` reads the
unresolved row of a node with `scalar_one_or_none`. What makes that safe is that
a node with an unresolved row is DEAD_LETTERED, and that the only way out of
DEAD_LETTERED, `retry_node`, resolves the row: [`DeadLetterInv`].

`resolve_dlq_job` is one more request that can come at any time. It writes a
dead-letter row and nothing else, so the invariants of the atomic alphabet hold
with it as well ([`AtomicInv.resolve`]).
-/
import EventFlow.Safety

set_option autoImplicit false

namespace EventFlow

open Transition

/-! ## `resolve_dlq_job` -/

/-- `DlqService.resolve_dlq_job`. A dead-letter row is named by its execution
and its position among the rows of that execution; the owner is that of the
execution's workflow. -/
def resolve_dlq_job (env : Env) (rows : ExecutionRows) (i owner_api_key_id now : ℕ)
    (resolution_note : Option String) : Except PyError ExecutionRows :=
  let not_found : PyError := .app
    { message := "Dead letter job not found", code := "not_found", status_code := 404 }
  match rows.dead_letter_jobs[i]? with
  | none => .error not_found
  | some job =>
    if env.owner rows.execution ≠ some owner_api_key_id then .error not_found
    else .ok { rows with
      dead_letter_jobs := rows.dead_letter_jobs.set i
        { job with resolved_at := some now, resolution_note } }

/-- The actions of the system, and the manual resolution of a dead letter. -/
inductive DlqAction where
  | sys (a : Action)
  | resolve_dlq_job (execution_id i owner_api_key_id : ℕ) (resolution_note : Option String)

/-- A request to resolve a dead letter, in one commit. -/
def Sys.resolve_dlq_job (env : Env) (s : Sys) (e i owner_api_key_id : ℕ)
    (resolution_note : Option String) : Sys :=
  match s.executions e with
  | none => s
  | some rows =>
    match EventFlow.resolve_dlq_job env rows i owner_api_key_id s.clock resolution_note with
    | .error _ => s
    | .ok rows' => { s with executions := Function.update s.executions e (some rows') }

/-- One step of the system with `resolve_dlq_job`. -/
def Sys.dlq_step (env : Env) (s : Sys) : DlqAction → Option Sys
  | .sys a => s.step env a
  | .resolve_dlq_job e i owner note =>
    some { s.resolve_dlq_job env e i owner note with clock := s.clock + 1 }

/-- The alphabet in which a recovered claim is one step. -/
def DlqAction.atomic : DlqAction → Bool
  | .sys a => a.atomic
  | .resolve_dlq_job .. => true

/-! ## Unresolved rows -/

section Unresolved

variable {jobs : List DeadLetterJob} {n m : String}

theorem unresolved_append (jobs jobs' : List DeadLetterJob) (n : String) :
    unresolved (jobs ++ jobs') n = unresolved jobs n ++ unresolved jobs' n :=
  List.filter_append ..

/-- `retry_node` resolves the rows of its node. -/
theorem unresolved_resolve_jobs_self (jobs : List DeadLetterJob) (n : String) (now : ℕ) :
    unresolved (resolve_jobs jobs n now) n = [] := by
  refine List.filter_eq_nil_iff.mpr fun job hjob => ?_
  obtain ⟨job₀, -, rfl⟩ := List.mem_map.mp hjob
  split
  · simp
  · rename_i hne
    simpa using hne

/-- It leaves the rows of the others alone. -/
theorem unresolved_resolve_jobs_of_ne (jobs : List DeadLetterJob) (hm : m ≠ n) (now : ℕ) :
    unresolved (resolve_jobs jobs n now) m = unresolved jobs m := by
  -- a row of `m` is not written, and no row becomes one of `m`
  have hkeep : ∀ job ∈ unresolved jobs m, (if job.node_id = n ∧ job.resolved_at = none then
      { job with resolved_at := some now, resolution_note := some "Manually retried via API" }
      else job) = job := by
    intro job hjob
    obtain ⟨hid, -⟩ := of_decide_eq_true (List.mem_filter.mp hjob).2
    exact if_neg fun h => hm (hid ▸ h.1)
  rw [unresolved, resolve_jobs, List.filter_map]
  refine Eq.trans ?_ ((List.map_congr_left hkeep).trans (List.map_id' _))
  congr 1
  refine List.filter_congr fun job _ => ?_
  simp only [Function.comp_apply]
  split
  · rename_i h
    have hne : job.node_id ≠ m := fun h' => hm (h' ▸ h.1)
    simp [hne]
  · rfl

/-- A manual resolution only takes rows away. -/
theorem unresolved_set_sublist {job : DeadLetterJob} (hjob : job.resolved_at ≠ none)
    (jobs : List DeadLetterJob) (i : ℕ) (n : String) :
    (unresolved (jobs.set i job) n).Sublist (unresolved jobs n) := by
  induction jobs generalizing i with
  | nil => exact List.Sublist.refl _
  | cons head jobs ih =>
      cases i with
      | zero =>
          rw [List.set_cons_zero, unresolved, unresolved, List.filter_cons, if_neg (by simp [hjob])]
          exact (List.sublist_cons_self head jobs).filter _
      | succ i =>
          rw [List.set_cons_succ, unresolved, unresolved, List.filter_cons, List.filter_cons]
          split
          · exact (ih i).cons_cons head
          · exact ih i

end Unresolved

/-! ## The invariant -/

/-- At most one dead-letter row of a node is unresolved, and only while the node
is DEAD_LETTERED. -/
structure DeadLetterInv (rows : ExecutionRows) : Prop where
  one : ∀ n, (unresolved rows.dead_letter_jobs n).length ≤ 1
  dead : ∀ n, unresolved rows.dead_letter_jobs n ≠ [] →
    (rows.nodes.row n).status = .DEAD_LETTERED

section Inv

variable {env : Env} {s s' : Sys} {a : Action} {e : ℕ} {d : WorkflowDefinition}
  {rows rows' : ExecutionRows}

/-- A node that is not DEAD_LETTERED has no unresolved row. -/
theorem DeadLetterInv.none (h : DeadLetterInv rows) {n : String}
    (hst : (rows.nodes.row n).status ≠ .DEAD_LETTERED) :
    unresolved rows.dead_letter_jobs n = [] := by
  by_contra hne
  exact hst (h.dead n hne)

/-- The rows stay, and so does every node that is DEAD_LETTERED. -/
theorem DeadLetterInv.of_same (h : DeadLetterInv rows)
    (hjobs : rows'.dead_letter_jobs = rows.dead_letter_jobs)
    (hst : ∀ n, (rows.nodes.row n).status = .DEAD_LETTERED →
      (rows'.nodes.row n).status = .DEAD_LETTERED) : DeadLetterInv rows' := by
  refine ⟨fun n => ?_, fun n hne => ?_⟩
  · rw [hjobs]
    exact h.one n
  · rw [hjobs] at hne
    exact hst n (h.dead n hne)

/-- A new row for a node that has none. -/
theorem DeadLetterInv.bury (h : DeadLetterInv rows) {n : String} {job : DeadLetterJob}
    (hst : (rows.nodes.row n).status ≠ .DEAD_LETTERED) (hjob : job.node_id = n)
    (hjobs : rows'.dead_letter_jobs = rows.dead_letter_jobs ++ [job])
    (hst' : (rows'.nodes.row n).status = .DEAD_LETTERED)
    (hothers : ∀ m, (rows.nodes.row m).status = .DEAD_LETTERED →
      (rows'.nodes.row m).status = .DEAD_LETTERED) : DeadLetterInv rows' := by
  have hsplit : ∀ m, unresolved rows'.dead_letter_jobs m
      = unresolved rows.dead_letter_jobs m ++ unresolved [job] m := by
    intro m
    rw [hjobs, unresolved_append]
  have hother : ∀ m, m ≠ n → unresolved [job] m = [] := by
    intro m hm
    refine List.filter_eq_nil_iff.mpr fun job' hjob' => ?_
    rw [List.mem_singleton] at hjob'
    subst hjob'
    simp [hjob, hm.symm]
  refine ⟨fun m => ?_, fun m hne => ?_⟩
  · rw [hsplit]
    by_cases hm : m = n
    · subst hm
      rw [h.none hst, List.nil_append]
      exact List.length_filter_le _ [job]
    · rw [hother m hm, List.append_nil]
      exact h.one m
  · rw [hsplit] at hne
    by_cases hm : m = n
    · exact hm ▸ hst'
    · rw [hother m hm, List.append_nil] at hne
      exact hothers m (h.dead m hne)

/-- A completion leaves the DEAD_LETTERED nodes alone. -/
theorem Completed.dead_row {node_def : Node} {n m : String} {result : ExecutorResult}
    {nodes : Table String NodeExecution} {execution : Execution} {now : ℕ} {session : Session}
    {pubs : List String} (h : Completed d node_def n result nodes execution e now session pubs)
    (hm : (nodes.row m).status = .DEAD_LETTERED) :
    (session.nodes.row m).status = .DEAD_LETTERED := by
  have hne : m ≠ n := by
    rintro rfl
    rw [h.running.2] at hm
    cases hm
  rw [h.level hne (by simp [hm])]
  exact hm

/-- No step leaves a second unresolved row of a node. A row is added when a RUNNING node
fails for the last time, and then there was no unresolved one, because such a node is
DEAD_LETTERED; a retry takes the node out of DEAD_LETTERED and resolves its row in the
same commit. -/
theorem RowsStep.deadLetterInv (h : RowsStep s a e d rows rows') (hinv : DeadLetterInv rows) :
    DeadLetterInv rows' := by
  cases h with
  | quiet hexec hkeys hrow hdead =>
      refine hinv.of_same hdead fun n hn => ?_
      obtain ⟨id, hrow⟩ := hrow n
      rw [hrow]
      exact hn
  | run n hkey hst =>
      refine hinv.of_same rfl fun m hm => ?_
      have hne : m ≠ n := by
        rintro rfl
        rcases hst with hst | hst <;> rw [hst] at hm <;> cases hm
      change ((rows.nodes.set n _).row m).status = _
      rw [Table.row_set_of_ne _ _ hne]
      exact hm
  | retry n hkey hst ha =>
      refine ⟨fun m => ?_, fun m hm => ?_⟩
      · by_cases hmn : m = n
        · subst hmn
          rw [unresolved_resolve_jobs_self]
          exact Nat.zero_le 1
        · rw [unresolved_resolve_jobs_of_ne _ hmn]
          exact hinv.one m
      · by_cases hmn : m = n
        · subst hmn
          exact absurd (unresolved_resolve_jobs_self _ _ _) hm
        · rw [unresolved_resolve_jobs_of_ne _ hmn] at hm
          change ((rows.nodes.set n _).row m).status = _
          rw [Table.row_set_of_ne _ _ hmn]
          exact hinv.dead m hm
  | @complete logs t msg result context execution node_def session pubs ha hphase he hdef
      hframe hends hdone =>
      have hothers := fun m => hdone.dead_row (m := m)
      -- only the last failure adds a row, for a node that had none
      cases hdone with
      | succeed targets _ hkey hrun hres hT heff hdead hexec =>
          exact hinv.of_same (by rw [hdead, List.append_nil]) hothers
      | requeue hkey hrun hres hleft hnodes hdead hexec =>
          exact hinv.of_same (by rw [hdead, List.append_nil]) hothers
      | bury hkey hrun hres hleft hnodes hdead hexec =>
          refine hinv.bury (n := context.node_id) (by simp [hrun]) ?_ (by rw [hdead]) ?_ hothers
          · rfl
          · rw [hnodes, Table.row_set_self]
            rfl

theorem Started.deadLetterInv (h : Started d rows) : DeadLetterInv rows := by
  have hnone : ∀ n, unresolved rows.dead_letter_jobs n = [] := by
    intro n
    rw [h.dead_letter_jobs]
    rfl
  refine ⟨fun n => ?_, fun n hne => absurd (hnone n) hne⟩
  rw [hnone]
  exact Nat.zero_le 1

/-- What a manual resolution does to the rows of its execution. -/
theorem resolve_dlq_job_ok {i owner now : ℕ} {note : Option String}
    (h : resolve_dlq_job env rows i owner now note = .ok rows') :
    rows'.execution = rows.execution ∧ rows'.nodes = rows.nodes ∧
      rows'.dead_letter_jobs.length = rows.dead_letter_jobs.length ∧
      ∀ n, (unresolved rows'.dead_letter_jobs n).Sublist (unresolved rows.dead_letter_jobs n) := by
  unfold resolve_dlq_job at h
  dsimp only at h
  split at h
  · cases h
  · split at h
    · cases h
    · cases h
      refine ⟨rfl, rfl, List.length_set, fun n => ?_⟩
      exact unresolved_set_sublist (by simp) _ i n

theorem DeadLetterInv.resolve {i owner now : ℕ} {note : Option String} (h : DeadLetterInv rows)
    (hok : resolve_dlq_job env rows i owner now note = .ok rows') : DeadLetterInv rows' := by
  obtain ⟨-, hnodes, -, hsub⟩ := resolve_dlq_job_ok hok
  refine ⟨fun n => (hsub n).length_le.trans (h.one n), fun n hne => ?_⟩
  rw [hnodes]
  refine h.dead n fun hnil => hne ?_
  have := hsub n
  rw [hnil] at this
  exact List.eq_nil_of_sublist_nil this

end Inv

/-! ## Runs with `resolve_dlq_job` -/

section Runs

variable {env : Env} {s s' : Sys}

/-- What a manual resolution does to the rows of an execution. -/
theorem Sys.resolve_dlq_job_rows {e e' i owner : ℕ} {note : Option String}
    {rows' : ExecutionRows}
    (h : (s.resolve_dlq_job env e i owner note).executions e' = some rows') :
    s.executions e' = some rows' ∨ ∃ rows, s.executions e' = some rows ∧
      EventFlow.resolve_dlq_job env rows i owner s.clock note = .ok rows' := by
  unfold Sys.resolve_dlq_job at h
  split at h
  · exact .inl h
  · rename_i rows hrows
    split at h
    · exact .inl h
    · rename_i rows₁ hok
      by_cases he : e' = e
      · subst he
        simp only [Function.update_self, Option.some.injEq] at h
        subst h
        exact .inr ⟨rows, hrows, hok⟩
      · simp only [Function.update_of_ne he] at h
        exact .inl h

/-- The invariants of the atomic alphabet do not read the dead letters, except that there
is one. So a change that is confined to the dead letters keeps them, if it does not delete
the last one. -/
theorem AtomicInv.of_rows (h : AtomicInv env s) (htasks : s'.tasks = s.tasks)
    (hstream : s'.stream = s.stream) (hnext : s'.next_execution_id = s.next_execution_id)
    (hback : ∀ e rows', s'.executions e = some rows' →
      ∃ rows, s.executions e = some rows ∧ rows'.execution = rows.execution ∧
        rows'.nodes = rows.nodes ∧
        (rows.dead_letter_jobs ≠ [] → rows'.dead_letter_jobs ≠ [])) : AtomicInv env s' := by
  have hof : ∀ {rows rows' : ExecutionRows} {d : WorkflowDefinition},
      rows'.execution = rows.execution → rows'.nodes = rows.nodes → rows'.Of env d →
      rows.Of env d := by
    intro rows rows' d hexec hnodes hd
    exact hd.congr (by rw [hexec]) (by rw [hnodes])
  refine ⟨⟨fun e rows' hrows' => ?_, fun e he => ?_, ?_, ?_⟩, ?_, ?_, ?_, ?_⟩
  · obtain ⟨rows, hrows, hexec, hnodes, -⟩ := hback e rows' hrows'
    obtain ⟨d, hd⟩ := h.typed.rows e rows hrows
    exact ⟨d, hof hexec.symm hnodes.symm hd⟩
  · cases hrows' : s'.executions e with
    | none => rfl
    | some rows' =>
        obtain ⟨rows, hrows, -⟩ := hback e rows' hrows'
        rw [h.typed.fresh e (hnext ▸ he)] at hrows
        cases hrows
  · rw [hstream, hnext]
    exact h.typed.stream
  · rw [htasks, hnext]
    exact h.typed.tasks
  · intro e rows' d hrows' hd
    obtain ⟨rows, hrows, hexec, hnodes, -⟩ := hback e rows' hrows'
    rw [hnodes]
    exact h.dag e rows d hrows (hof hexec hnodes hd)
  · intro e rows' d hrows' hd
    obtain ⟨rows, hrows, hexec, hnodes, hdead⟩ := hback e rows' hrows'
    obtain ⟨h1, h2, h3, h4, h5⟩ := h.exec e rows d hrows (hof hexec hnodes hd)
    refine ⟨?_, ?_, ?_, fun hf => hdead ?_, ?_⟩
    · rw [hexec]
      exact h1
    · rw [hexec, hnodes]
      exact h2
    · rw [hexec, hnodes]
      exact h3
    · rw [hexec] at hf
      exact h4 hf
    · rw [hexec, hnodes]
      exact h5
  · intro t m context execution rows' hphase hrows'
    obtain ⟨rows, hrows, hexec, -, -⟩ := hback _ rows' hrows'
    rw [hexec]
    exact h.cached t m context execution rows (htasks ▸ hphase) hrows
  · intro t m job attempt rows' hphase hrows'
    obtain ⟨rows, hrows, -, hnodes, -⟩ := hback _ rows' hrows'
    rw [hnodes]
    exact h.claimed t m job attempt rows (htasks ▸ hphase) hrows

/-- **A manual resolution keeps the invariants of the atomic alphabet.** It sets
`resolved_at` and a note, so the number of dead-letter rows is the same. -/
theorem AtomicInv.resolve {e i owner : ℕ} {note : Option String} (h : AtomicInv env s) :
    AtomicInv env { s.resolve_dlq_job env e i owner note with clock := s.clock + 1 } := by
  have hframe : (s.resolve_dlq_job env e i owner note).tasks = s.tasks ∧
      (s.resolve_dlq_job env e i owner note).stream = s.stream ∧
      (s.resolve_dlq_job env e i owner note).next_execution_id = s.next_execution_id := by
    unfold Sys.resolve_dlq_job
    split
    · exact ⟨rfl, rfl, rfl⟩
    · split <;> exact ⟨rfl, rfl, rfl⟩
  refine h.of_rows hframe.1 hframe.2.1 hframe.2.2 fun e' rows' hrows' => ?_
  rcases Sys.resolve_dlq_job_rows hrows' with hrows | ⟨rows, hrows, hok⟩
  · exact ⟨rows', hrows, rfl, rfl, id⟩
  · obtain ⟨hexec, hnodes, hlen, -⟩ := resolve_dlq_job_ok hok
    refine ⟨rows, hrows, hexec, hnodes, fun hne hnil => hne ?_⟩
    rw [hnil] at hlen
    exact List.length_eq_zero_iff.mp hlen.symm

/-- The invariants of the atomic alphabet and of the dead letters. -/
def BookInv (env : Env) (s : Sys) : Prop :=
  AtomicInv env s ∧ ∀ e rows, s.executions e = some rows → DeadLetterInv rows

theorem BookInv.step {a : DlqAction} (h : BookInv env s) (ha : a.atomic = true)
    (hs : s.dlq_step env a = some s') : BookInv env s' := by
  cases a with
  | sys a =>
      refine ⟨h.1.step hs ha, fun e rows' hrows' => ?_⟩
      obtain ⟨u, hu, rfl⟩ := Option.map_eq_some_iff.mp hs
      rcases (effect_of_act h.1.typed hu).rowsStep h.1.typed ha hrows' with
        ⟨t, vid, input, owner, session, pubs, -, -, hok, rfl⟩ | ⟨rows, d, hrows, hd, hstep⟩
      · obtain ⟨d, -, hstarted⟩ := started_of_start hok
        exact hstarted.deadLetterInv
      · exact hstep.deadLetterInv (h.2 e rows hrows)
  | resolve_dlq_job e i owner note =>
      cases hs
      refine ⟨h.1.resolve, fun e' rows' hrows' => ?_⟩
      rcases Sys.resolve_dlq_job_rows hrows' with hrows | ⟨rows, hrows, hok⟩
      · exact h.2 e' rows' hrows
      · exact (h.2 e' rows hrows).resolve hok

theorem bookInv_of_run (hrun : Reaches (Sys.dlq_step env) (fun _ a => a.atomic = true)
    Sys.init s) : BookInv env s := by
  refine hrun.invariant (BookInv env) ⟨atomicInv_init, fun e rows hrows => ?_⟩
    fun _ _ _ h ha hs => h.step ha hs
  cases hrows

/-- What a commit that dead-letters a node adds. Only a completion can do it, and among
the completions only the one that buries the node itself: the others write statuses other
than DEAD_LETTERED. -/
theorem RowsStep.buried {a : Action} {e : ℕ} {d : WorkflowDefinition}
    {rows rows' : ExecutionRows} {n : String} (h : RowsStep s a e d rows rows')
    (hst : (rows.nodes.row n).status ≠ .DEAD_LETTERED)
    (hst' : (rows'.nodes.row n).status = .DEAD_LETTERED) :
    ∃ job, rows'.dead_letter_jobs = rows.dead_letter_jobs ++ [job] ∧ job.node_id = n ∧
      job.attempts = (rows'.nodes.row n).attempt ∧ job.resolved_at = none := by
  -- a row that is set to another status is not the one
  have set : ∀ {m : String} {node : NodeExecution}, node.status ≠ .DEAD_LETTERED →
      ((rows.nodes.set m node).row n).status ≠ .DEAD_LETTERED :=
    fun hnode => Table.row_set_of (fun row : NodeExecution => row.status ≠ .DEAD_LETTERED) hnode hst
  cases h with
  | quiet hexec hkeys hrow hdead =>
      obtain ⟨id, hrow⟩ := hrow n
      rw [hrow] at hst'
      exact absurd hst' hst
  | run m hkey hm => exact absurd hst' (set (by simp))
  | retry m hkey hm ha => exact absurd hst' (set (by simp))
  | @complete logs t msg result context execution node_def session pubs ha hphase he hdef
      hframe hends hdone =>
      cases hdone with
      | succeed targets _ hkey hrun hres hT heff hdead hexec =>
          have hset : ((rows.nodes.set context.node_id
              ((rows.nodes.row context.node_id).succeed result.output s.clock)).row n).status
                ≠ .DEAD_LETTERED := set (by simp [NodeExecution.succeed])
          rcases heff.cases n with ⟨-, -, hrow⟩ | ⟨-, -, -, hrow⟩ | ⟨-, -, hrow⟩
          · simp [hrow] at hst'
          · simp [hrow] at hst'
          · rw [hrow] at hst'
            exact absurd hst' hset
      | requeue hkey hrun hres hleft hnodes hdead hexec =>
          rw [hnodes] at hst'
          exact absurd hst' (set (by simp [NodeExecution.retry]))
      | bury hkey hrun hres hleft hnodes hdead hexec =>
          have hn : n = context.node_id := by
            by_contra hne
            rw [hnodes, Table.row_set_of_ne _ _ hne] at hst'
            exact hst hst'
          subst hn
          refine ⟨_, by rw [hdead], rfl, ?_, rfl⟩
          rw [hnodes, Table.row_set_self]
          rfl

/-- `retry_node` does not find two unresolved rows. -/
theorem DeadLetterInv.retry_node_ne {rows : ExecutionRows} (h : DeadLetterInv rows)
    (e now owner : ℕ) (n : String) :
    retry_node env (rows.load e now) rows.dead_letter_jobs n owner
      ≠ .error .multiple_results_found := by
  intro heq
  by_cases hretry : Retryable env (rows.load e now) n owner
  · obtain ⟨s', -, -, -, hrun⟩ := retry_node_of_retryable rows.dead_letter_jobs hretry
    have hone := h.one n
    rw [hrun, if_neg (by omega)] at heq
    cases heq
  · obtain ⟨error, herror⟩ := retry_node_of_not_retryable rows.dead_letter_jobs hretry
    rw [herror] at heq
    cases heq

end Runs

/-- **Dead-letter bookkeeping.** In every run of atomic steps and manual resolutions: a
commit that makes a node DEAD_LETTERED adds exactly one row for it, with the attempt of
the node; at most one row of a node is unresolved, and only while the node is
DEAD_LETTERED; the execution of a DEAD_LETTERED node is FAILED; and `retry_node` never
finds two rows. The manual resolutions may come between any two steps. The invariant is
kept by them, since they only make rows resolved, and by every step of the alphabet
([`RowsStep.deadLetterInv`]); the last part, that `scalar_one_or_none` does not raise, is
the first read off at the list that `retry_node` loads. -/
theorem dead_letter_bookkeeping (env : Env) (s : Sys)
    (hrun : Reaches (Sys.dlq_step env) (fun _ a => a.atomic = true) Sys.init s) :
    (∀ a s' e rows' n, a.atomic = true → s.dlq_step env a = some s' →
      s'.executions e = some rows' → (rows'.nodes.row n).status = .DEAD_LETTERED →
      (∀ rows, s.executions e = some rows → (rows.nodes.row n).status ≠ .DEAD_LETTERED) →
      ∃ rows job, s.executions e = some rows ∧
        rows'.dead_letter_jobs = rows.dead_letter_jobs ++ [job] ∧ job.node_id = n ∧
        job.attempts = (rows'.nodes.row n).attempt ∧ job.resolved_at = none) ∧
    ∀ e rows n, s.executions e = some rows →
      (unresolved rows.dead_letter_jobs n).length ≤ 1 ∧
      (unresolved rows.dead_letter_jobs n ≠ [] → (rows.nodes.row n).status = .DEAD_LETTERED) ∧
      (n ∈ rows.nodes.keys → (rows.nodes.row n).status = .DEAD_LETTERED →
        rows.execution.status = .FAILED) ∧
      ∀ owner, retry_node env (rows.load e s.clock) rows.dead_letter_jobs n owner
        ≠ .error .multiple_results_found := by
  have hinv := bookInv_of_run hrun
  refine ⟨?_, fun e rows n hrows => ?_⟩
  · intro a s' e rows' n ha hs hrows' hst' hst
    cases a with
    | sys a =>
        obtain ⟨u, hu, rfl⟩ := Option.map_eq_some_iff.mp hs
        rcases (effect_of_act hinv.1.typed hu).rowsStep hinv.1.typed ha hrows' with
          ⟨t, vid, input, owner, session, pubs, -, -, hok, rfl⟩ | ⟨rows, d, hrows, hd, hstep⟩
        · obtain ⟨d, -, hstarted⟩ := started_of_start hok
          rw [hstarted.node_status] at hst'
          split at hst' <;> cases hst'
        · exact ⟨rows, (hstep.buried (hst rows hrows) hst').imp fun job h => ⟨hrows, h⟩⟩
    | resolve_dlq_job e₀ i owner note =>
        -- a resolution moves no node
        cases hs
        rcases Sys.resolve_dlq_job_rows hrows' with hrows | ⟨rows, hrows, hok⟩
        · exact absurd hst' (hst rows' hrows)
        · rw [(resolve_dlq_job_ok hok).2.1] at hst'
          exact absurd hst' (hst rows hrows)
  · obtain ⟨d, hd⟩ := hinv.1.typed.rows e rows hrows
    have hdead := hinv.2 e rows hrows
    refine ⟨hdead.one n, hdead.dead n, fun hn hst => ?_, fun owner =>
      hdead.retry_node_ne e s.clock owner n⟩
    refine (hinv.1.exec e rows d hrows hd).dead n ?_ hst
    rw [← hd.2.2]
    exact hn

/-- The node dies, its dead letter is resolved by hand, the node is retried and
dies again. -/
def twice_dead_run : List DlqAction :=
  [.sys (.start 0 0 none 0), .sys (.publish 0), .sys (.claim 1 0), .sys (.flush 1),
    .sys (.flush 1), .sys (.invoke 1), .sys (.complete 1 failed),
    .resolve_dlq_job 0 0 0 (some "looked at"), .sys (.retry 2 0 "a" 0), .sys (.publish 2),
    .sys (.claim 3 1), .sys (.flush 3), .sys (.flush 3), .sys (.invoke 3),
    .sys (.complete 3 failed)]

/-- Two dead letters, one of them unresolved. -/
theorem dead_letter_bookkeeping_solo :
    ∃ (s : Sys) (rows : ExecutionRows), s.executions 0 = some rows ∧
      rows.dead_letter_jobs.length = 2 ∧ (rows.nodes.row "a").status = .DEAD_LETTERED ∧
      (unresolved rows.dead_letter_jobs "a").length ≤ 1 ∧ rows.execution.status = .FAILED := by
  have hst : (run (restrict (Sys.dlq_step (env_of solo)) fun _ a => a.atomic) Sys.init
      twice_dead_run).bind (fun s => (s.executions 0).bind fun rows =>
        (rows.nodes.get? "a").map fun node => (rows.dead_letter_jobs.length, node.status))
      = some (2, .DEAD_LETTERED) := by decide +kernel
  obtain ⟨s, hs, hst⟩ := Option.bind_eq_some_iff.mp hst
  obtain ⟨rows, hrows, hst⟩ := Option.bind_eq_some_iff.mp hst
  obtain ⟨node, hnode, heq⟩ := Option.map_eq_some_iff.mp hst
  obtain ⟨hkey, rfl⟩ := Table.get?_eq_some_iff.mp hnode
  simp only [Prod.mk.injEq] at heq
  obtain ⟨hlen, hdead⟩ := heq
  obtain ⟨-, hall⟩ := dead_letter_bookkeeping (env_of solo) s (reaches_of_run hs)
  obtain ⟨hone, -, hfailed, -⟩ := hall 0 rows "a" hrows
  exact ⟨s, rows, hrows, hlen, hdead, hone, hfailed hkey hdead⟩

end EventFlow
