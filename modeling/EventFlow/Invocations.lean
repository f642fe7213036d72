/-
How often an executor is called.

Attempts are counted where a node enters QUEUED through the transition service.
`process_recovered_job` assigns QUEUED without it, so a job that kills its
worker is run again at the same attempt, as often as recovery finds it
([`not_invocations_bounded`]).

[`invocations_le`] is what holds of every run: an invocation is paid for by an
attempt or by an override. The invariant counts what is still to be spent: a
QUEUED row is worth one claim and a task that has claimed is worth one
invocation. Without overrides the number of invocations is bounded by the
attempts, and these by `max_attempts` and the manual retries.
-/
import EventFlow.Accounting
import EventFlow.Attempts

set_option autoImplicit false

namespace EventFlow

open Transition

/-! ## The invariant -/

/-- Task `t` has claimed node `n` of `e` and has not called its executor yet. -/
def Sys.AboutToRun (s : Sys) (e : ℕ) (n : String) (t : ℕ) : Prop :=
  ∃ m job k, (s.tasks t).phase = .claimed m job k ∧ job.execution_id = e ∧ job.node_id = n

/-- A QUEUED row is worth one claim. -/
def NodeExecution.queued (node : NodeExecution) : ℕ := if node.status = .QUEUED then 1 else 0

/-- The invocations made, and those that can still be made at the current
attempt, are paid for by attempts and overrides. -/
def Spent (s : Sys) (log : List Note) (e : ℕ) (n : String) (node : NodeExecution) : Prop :=
  ∃ holders : List ℕ, (∀ t, s.AboutToRun e n t → t ∈ holders) ∧
    log.count (.invoked e n) + holders.length + node.queued
      ≤ node.attempt + log.count (.overrode e n)

/-- For every node of every stored execution. -/
structure InvocationInv (s : Sys) (log : List Note) : Prop where
  spent : ∀ e rows n, s.executions e = some rows → Spent s log e n (rows.nodes.row n)
  fresh : ∀ e n, .invoked e n ∈ log → e < s.next_execution_id

section Invocations

variable {env : Env} {s s' : Sys} {a : Action} {log : List Note} {e : ℕ} {n : String}

/-- A task that is about to run a node was so before, or has just claimed it: a row that
was QUEUED, or one that the step overrides. A task comes to the phase `claimed` by a claim
only, and the three kinds of claim test the row, revert it first, or test a copy; the last
two are the ones that can take a node which is not QUEUED. -/
theorem Effect.aboutToRun {t : ℕ} {rows : ExecutionRows} (h : Effect env s a s')
    (hrows : s.executions e = some rows) (hrun : s'.AboutToRun e n t) :
    s.AboutToRun e n t ∨
      (a.task = some t ∧ (∃ rows', s'.executions e = some rows' ∧
          (rows'.nodes.row n).status = .RUNNING) ∧
        ((rows.nodes.row n).status = .QUEUED ∨ s.overrides a = some (e, n))) := by
  obtain ⟨m, job, k, hphase, rfl, rfl⟩ := hrun
  have hcomes := h.comes t
  rw [hphase] at hcomes
  cases hcomes with
  | stayed hold => exact .inl ⟨m, job, k, hold, rfl, rfl⟩
  | @claimed _ entry r r' ha hentry hr hkey hr' hnodes =>
      -- a claim after recovery may take a RUNNING row, which is an override
      rw [hrows, Option.some.injEq] at hr
      subst hr
      refine .inr ⟨?_, ⟨r', hr', ?_⟩, ?_⟩
      · rcases ha with ⟨rfl, -⟩ | ⟨rfl, -⟩ <;> rfl
      · rw [hnodes, Table.row_set_self, NodeExecution.enter_status]
      · rcases ha with ⟨rfl, hst⟩ | ⟨rfl, hst | hst⟩
        · exact .inl hst
        · exact .inl hst
        · right
          simp only [Sys.overrides, hentry, hrows, hst, if_true]
  | @reclaimed _ _ cached r' ha hold hst hr' hrun =>
      -- the cached instance is QUEUED; the row may be anything by now
      refine .inr ⟨by rw [ha]; rfl, ⟨r', hr', hrun⟩, ?_⟩
      by_cases hq : (rows.nodes.row job.node_id).status = .QUEUED
      · exact .inl hq
      · right
        rw [ha]
        simp only [Sys.overrides, hold, hrows]
        rw [if_pos ⟨hst, hq⟩]

/-- A claim is made in an execution that is stored. -/
theorem Effect.aboutToRun_lt {t m k : ℕ} {job : Job} (h : Effect env s a s')
    (ht : s.Typed env) (hphase : (s'.tasks t).phase = .claimed m job k) :
    job.execution_id < s.next_execution_id := by
  have hcomes := h.comes t
  rw [hphase] at hcomes
  cases hcomes with
  | stayed hold => exact ht.tasks t _ (by rw [hold]; exact List.mem_singleton.mpr rfl)
  | claimed ha hentry hrows => exact ht.lt hrows
  | reclaimed ha hold => exact ht.tasks t _ (by rw [hold]; exact List.mem_singleton.mpr rfl)

/-- A root is queued at its first attempt. -/
theorem Started.queued_le {d : WorkflowDefinition} {rows : ExecutionRows} (h : Started d rows)
    (n : String) : (rows.nodes.row n).queued ≤ (rows.nodes.row n).attempt := by
  by_cases hroot : n ∈ d.node_ids ∧ d.parent_ids n = []
  · obtain ⟨now, hrow⟩ := h.root n hroot.1 hroot.2
    rw [hrow, NodeExecution.enter_queued_attempt, NodeExecution.queued, NodeExecution.enter_status]
    simp
  · rw [h.other n hroot]
    simp [NodeExecution.queued]

/-- A row that becomes QUEUED is at a new attempt, or has been reverted. This is the
exchange rate of the account: a QUEUED row is worth one claim, and it is bought with an
attempt or with an override. -/
theorem NodeStep.queued_le {rows : ExecutionRows} {new : NodeExecution}
    (h : NodeStep s s' a e n (rows.nodes.row n) new) (hrows : s.executions e = some rows) :
    new.queued + (rows.nodes.row n).attempt
      ≤ (rows.nodes.row n).queued + new.attempt + (s.notes a s').count (.overrode e n) := by
  have hle : new.queued ≤ 1 := by
    unfold NodeExecution.queued
    split <;> omega
  cases h with
  | same hst hatt =>
      have : new.queued = (rows.nodes.row n).queued := by
        unfold NodeExecution.queued
        rw [hst]
      omega
  | claim k hclaim hst hatt =>
      have : new.queued = 0 := by simp [NodeExecution.queued, hst]
      omega
  | revert t m entry ha hentry he hn hold hst hatt =>
      have hover : s.overrides a = some (e, n) := by
        rw [ha]
        simp only [Sys.overrides, hentry, he, hn, hrows, hold, if_true]
      have hmem : .overrode e n ∈ s.notes a s' := mem_notes_of_overrides hover
      have := List.count_pos_iff.mpr hmem
      omega
  | skip hold hst hatt =>
      have : new.queued = 0 := by simp [NodeExecution.queued, hst]
      omega
  | queue hold hst hatt howed => omega
  | finish hold hst hatt =>
      have : new.queued = 0 := by
        rcases hst with hst | hst <;> simp [NodeExecution.queued, hst]
      omega

/-- A call of the executor spends the claim of its task. -/
theorem Spent.invoke {rows rows' : ExecutionRows} (h : Spent s log e n (rows.nodes.row n))
    (heff : Effect env s a s') (hrows : s.executions e = some rows)
    (hrows' : s'.executions e = some rows') (hmem : .invoked e n ∈ s.notes a s') :
    Spent s' (log ++ s.notes a s') e n (rows'.nodes.row n) := by
  obtain ⟨holders, hall, hle⟩ := h
  obtain ⟨t, m, job, k, _, ha, hnotes, hphase, he, hn, -, hsame, hgone⟩ :=
    heff.mem_notes_invoked hmem
  have hin : t ∈ holders := hall t ⟨m, job, k, hphase, he, hn⟩
  have hr : rows' = rows := by
    rw [hsame, hrows, Option.some.injEq] at hrows'
    exact hrows'.symm
  -- `t` is on the list, so one place on it pays for the call
  refine ⟨holders.erase t, fun t' ht' => ?_, ?_⟩
  · have hne : t' ≠ t := by
      rintro rfl
      obtain ⟨m', job', k', hphase', -⟩ := ht'
      exact hgone m' job' k' hphase'
    refine (List.mem_erase_of_ne hne).mpr (hall t' ?_)
    have hother : s'.tasks t' = s.tasks t' := by
      refine heff.tasks_of_ne ?_
      rw [ha, Action.task, Ne, Option.some.injEq]
      exact hne.symm
    obtain ⟨m', job', k', hphase', hjob⟩ := ht'
    exact ⟨m', job', k', hother ▸ hphase', hjob⟩
  · have hlen := List.length_erase_of_mem hin
    have hpos := List.length_pos_of_mem hin
    rw [hr, hnotes, List.count_append, List.count_append, List.count_singleton_self]
    omega

/-- Any other step: a claim is paid for by the QUEUED row it takes, or it is an override.
Tasks that stop or complete take nothing out of the account, and a task that was about to
run stays so until it has called its executor. -/
theorem Spent.step {rows rows' : ExecutionRows} (h : Spent s log e n (rows.nodes.row n))
    (heff : Effect env s a s') (ht : s.Typed env) (hrows : s.executions e = some rows)
    (hrows' : s'.executions e = some rows') (hmem : .invoked e n ∉ s.notes a s') :
    Spent s' (log ++ s.notes a s') e n (rows'.nodes.row n) := by
  obtain ⟨holders, hall, hle⟩ := h
  have hnode := heff.nodeStep_of_stored ht hrows hrows' n
  have hqueued := hnode.queued_le hrows
  have hzero := List.count_eq_zero.mpr hmem
  by_cases hnew : ∃ t, s'.AboutToRun e n t ∧ ¬ s.AboutToRun e n t
  · -- one task joins the list, and the row it has taken is QUEUED no more
    obtain ⟨t, hrun, hold⟩ := hnew
    obtain ⟨htask, ⟨r', hr', hst'⟩, hpaid⟩ := (heff.aboutToRun hrows hrun).resolve_left hold
    rw [hrows', Option.some.injEq] at hr'
    subst hr'
    refine ⟨t :: holders, fun t' ht' => ?_, ?_⟩
    · by_cases htt : t' = t
      · exact htt ▸ List.mem_cons_self
      · rcases heff.aboutToRun hrows ht' with ht' | ⟨htask', -⟩
        · exact List.mem_cons_of_mem _ (hall t' ht')
        · rw [htask, Option.some.injEq] at htask'
          exact absurd htask'.symm htt
    · have hq' : (rows'.nodes.row n).queued = 0 := by simp [NodeExecution.queued, hst']
      have hatt := hnode.attempt_le
      rw [List.count_append, List.count_append, List.length_cons]
      rcases hpaid with hq | hover
      · have hq : (rows.nodes.row n).queued = 1 := by simp [NodeExecution.queued, hq]
        omega
      · have hin : .overrode e n ∈ s.notes a s' := mem_notes_of_overrides hover
        have := List.count_pos_iff.mpr hin
        omega
  · refine ⟨holders, fun t ht' => hall t ?_, ?_⟩
    · by_contra hold
      exact hnew ⟨t, ht', hold⟩
    · rw [List.count_append, List.count_append]
      omega

/-- Nothing has been spent on a new execution. -/
theorem Spent.first {rows : ExecutionRows} (hlog : log.count (.invoked e n) = 0)
    (hidle : ∀ t, ¬ s.AboutToRun e n t) (hq : (rows.nodes.row n).queued
      ≤ (rows.nodes.row n).attempt) : Spent s log e n (rows.nodes.row n) := by
  refine ⟨[], fun t ht => absurd ht (hidle t), ?_⟩
  rw [hlog, List.length_nil]
  omega

theorem InvocationInv.effect (h : InvocationInv s log) (heff : Effect env s a s')
    (ht : s.Typed env) : InvocationInv s' (log ++ s.notes a s') := by
  have hnotes : ∀ e n, .invoked e n ∈ s.notes a s' → e < s.next_execution_id := by
    intro e n hmem
    obtain ⟨_, _, _, _, rows, -, -, -, -, -, hrows, -⟩ := heff.mem_notes_invoked hmem
    exact ht.lt hrows
  refine ⟨fun e rows' n hrows' => ?_, fun e n hmem => ?_⟩
  · rcases heff.stored_or_started hrows' with ⟨rows, hrows⟩ | ⟨hnew, d, -, hstarted⟩
    · by_cases hmem : .invoked e n ∈ s.notes a s'
      · exact (h.spent e rows n hrows).invoke heff hrows hrows' hmem
      · exact (h.spent e rows n hrows).step heff ht hrows hrows' hmem
    · refine .first ?_ ?_ ?_
      · refine List.count_eq_zero.mpr fun hmem => ?_
        rcases List.mem_append.mp hmem with hmem | hmem
        · have := h.fresh e n hmem
          omega
        · have := hnotes e n hmem
          omega
      · -- nobody holds a claim in an execution that is only now created
        rintro t ⟨m, job, k, hphase, he, -⟩
        have hlt := heff.aboutToRun_lt ht hphase
        omega
      · exact hstarted.queued_le n
  · have hle := heff.next_le
    rcases List.mem_append.mp hmem with hmem | hmem
    · exact (h.fresh e n hmem).trans_le hle
    · exact (hnotes e n hmem).trans_le hle

theorem invocationInv_of_run {guard : Sys → Action → Prop} (hrun : Recorded env guard s log) :
    InvocationInv s log := by
  refine Recorded.invariant InvocationInv hrun typed_init ⟨?_, ?_⟩
    (fun _ _ _ h => ⟨h.spent, h.fresh⟩) fun _ _ _ _ ht h _ heff => h.effect heff ht
  · intro e rows n hrows
    cases hrows
  · intro e n hmem
    cases hmem

end Invocations

/-! ## The bound -/

/-- The bound for a node whose `max_attempts` is `budget`, also once its
execution has been deleted. -/
structure WithinBudget (s : Sys) (log : List Note) (e : ℕ) (n : String) (budget : ℕ) : Prop where
  spent : InvocationInv s log
  account : AccountInv s log
  created : e < s.next_execution_id
  stored : ∀ rows, s.executions e = some rows → (rows.nodes.row n).max_attempts = budget
  deleted : s.executions e = none → log.count (.invoked e n)
    ≤ budget + log.count (.retried e n) + log.count (.overrode e n)

section Bound

variable {env : Env} {guard : Sys → Action → Prop} {s s₀ s' : Sys} {a : Action}
  {log log₀ : List Note} {e budget : ℕ} {n : String}

/-- An invocation is paid for by one of the attempts a node has, by a manual
retry, or by an override of recovery. -/
theorem WithinBudget.invocations_le (h : WithinBudget s log e n budget) :
    log.count (.invoked e n)
      ≤ budget + log.count (.retried e n) + log.count (.overrode e n) := by
  cases hrows : s.executions e with
  | none => exact h.deleted hrows
  | some rows =>
      obtain ⟨holders, -, hle⟩ := h.spent.spent e rows n hrows
      have hatt := (h.account e rows n hrows).attempt_le
      rw [h.stored rows hrows] at hatt
      omega

theorem WithinBudget.effect (h : WithinBudget s log e n budget) (heff : Effect env s a s')
    (ht : s.Typed env) : WithinBudget s' (log ++ s.notes a s') e n budget := by
  refine ⟨h.spent.effect heff ht, h.account.effect heff ht, h.created.trans_le heff.next_le,
    fun rows' hrows' => ?_, fun hgone => ?_⟩
  · rcases heff.stored_or_started hrows' with ⟨rows, hrows⟩ | ⟨hnew, -⟩
    · rw [(heff.budget ht hrows hrows' n).max_attempts]
      exact h.stored rows hrows
    · have := h.created
      omega
  · -- no executor is called for rows that are gone
    have hnone : .invoked e n ∉ s.notes a s' := by
      intro hmem
      obtain ⟨_, _, _, _, rows, -, -, -, -, -, hrows, hsame, -⟩ := heff.mem_notes_invoked hmem
      rw [hsame, hrows] at hgone
      cases hgone
    have hle := h.invocations_le
    rw [List.count_append, List.count_append, List.count_append, List.count_eq_zero.mpr hnone]
    omega

/-- **Every invocation is paid for**, in every run of either alphabet. Two accounts are
put together: invocations are paid for by attempts and overrides ([`Spent`]), attempts by
`max_attempts` and the manual retries ([`accountInv_of_run`]). The bound is carried beyond
the deletion of the execution, where no row is left to read it off. -/
theorem withinBudget_of_run {rows : ExecutionRows} (h₀ : Recorded env guard s₀ log₀)
    (hrows : s₀.executions e = some rows)
    (hrun : Logged (Sys.step env) Sys.notes guard (s₀, log₀) (s, log)) (n : String) :
    WithinBudget s log e n (rows.nodes.row n).max_attempts := by
  have ht := Recorded.typed h₀
  refine Recorded.invariant (fun u l => WithinBudget u l e n (rows.nodes.row n).max_attempts)
    hrun ht ⟨invocationInv_of_run h₀, accountInv_of_run h₀, ht.lt hrows, fun r hr => ?_,
      fun hgone => ?_⟩
    (fun _ _ _ h => ⟨⟨h.spent.spent, h.spent.fresh⟩, h.account, h.created, h.stored, h.deleted⟩)
    fun _ _ _ _ ht h _ heff => h.effect heff ht
  · rw [hrows, Option.some.injEq] at hr
    rw [hr]
  · rw [hrows] at hgone
    cases hgone

/-- A run without overrides has none in its ledger. -/
theorem count_overrode_eq_zero (hguard : ∀ u a, guard u a → u.overrides a = none)
    (hrun : Recorded env guard s log) (e : ℕ) (n : String) :
    log.count (.overrode e n) = 0 := by
  have hnot : .overrode e n ∉ log := by
    refine Reaches.invariant (fun u => .overrode e n ∉ u.2) hrun (by simp) ?_
    rintro u a v hu hg hs
    rw [(logged_eq_some_iff.mp hs).2]
    intro hmem
    rcases List.mem_append.mp hmem with hmem | hmem
    · exact hu hmem
    · have hover := overrides_of_mem_notes hmem
      rw [hguard _ _ hg] at hover
      cases hover
  exact List.count_eq_zero.mpr hnot

end Bound

/-- **Bounded execution**, in every run in which recovery takes no node that is not
QUEUED: from any state in which a node is stored, and ever after, the calls of its
executor are at most its `max_attempts` plus the manual retries that went through. Without
overrides that kind of payment does not occur, so the bound of [`withinBudget_of_run`] is
the one that is claimed. -/
theorem invocations_bounded_of_no_override (env : Env) (s₀ s : Sys) (log₀ log : List Note)
    (e : ℕ) (rows : ExecutionRows) (n : String)
    (h₀ : Recorded env (fun s a => s.overrides a = none) s₀ log₀)
    (hrows : s₀.executions e = some rows)
    (hrun : Logged (Sys.step env) Sys.notes (fun s a => s.overrides a = none)
      (s₀, log₀) (s, log)) :
    log.count (.invoked e n) ≤ (rows.nodes.row n).max_attempts + log.count (.retried e n) := by
  have hle := (withinBudget_of_run h₀ hrows hrun n).invocations_le
  have hzero := count_overrode_eq_zero (fun _ _ h => h) (h₀.trans hrun) e n
  omega

/-- A worker that dies in the executor of a node with one attempt, and the
recovery that runs it again. -/
def crash_run : List Action :=
  [.start 0 0 none 0, .publish 0, .claim 1 0, .flush 1, .flush 1, .invoke 1, .crash 1,
    .recover_claim 2 0, .flush 2, .flush 2, .flush 2, .invoke 2]

/-- The second call of an executor that may be called once. -/
theorem not_invocations_bounded : ¬ ∀ (env : Env) (s₀ s : Sys) (log₀ log : List Note) (e : ℕ)
    (rows : ExecutionRows) (n : String), Recorded env (fun _ a => a.atomic = true) s₀ log₀ →
    s₀.executions e = some rows →
    Logged (Sys.step env) Sys.notes (fun _ a => a.atomic = true) (s₀, log₀) (s, log) →
    log.count (.invoked e n) ≤ (rows.nodes.row n).max_attempts + log.count (.retried e n) := by
  intro h
  have hrun : (recorded_run (env_of solo) (fun _ a => a.atomic) crash_run).bind (fun u =>
      (u.1.executions 0).map fun rows => ((rows.nodes.row "a").max_attempts,
        u.2.count (.invoked 0 "a"), u.2.count (.retried 0 "a"))) = some (1, 2, 0) := by
    decide +kernel
  obtain ⟨⟨s, log⟩, hs, hrun⟩ := Option.bind_eq_some_iff.mp hrun
  obtain ⟨rows, hrows, heq⟩ := Option.map_eq_some_iff.mp hrun
  simp only [Prod.mk.injEq] at heq
  obtain ⟨hmax, hinv, hret⟩ := heq
  have hle := h (env_of solo) s s log log 0 rows "a" (reaches_of_run hs) hrows .refl
  omega

/-- Two of three attempts, the second one lost in a crash. -/
theorem invocations_bounded_of_no_override_patient :
    ∃ (s : Sys) (log : List Note) (rows : ExecutionRows), s.executions 0 = some rows ∧
      (rows.nodes.row "a").max_attempts = 3 ∧ log.count (.invoked 0 "a") = 2 ∧
      log.count (.invoked 0 "a")
        ≤ (rows.nodes.row "a").max_attempts + log.count (.retried 0 "a") := by
  have hrun : (recorded_run (env_of patient) (fun s a => (s.overrides a).isNone)
      [.start 0 0 none 0, .publish 0, .claim 1 0, .flush 1, .flush 1, .invoke 1,
        .complete 1 failed, .publish 1, .claim 2 1, .flush 2, .flush 2, .invoke 2,
        .crash 2]).bind (fun u => (u.1.executions 0).map fun rows =>
          ((rows.nodes.row "a").max_attempts, u.2.count (.invoked 0 "a"))) = some (3, 2) := by
    decide +kernel
  obtain ⟨⟨s, log⟩, hs, hrun⟩ := Option.bind_eq_some_iff.mp hrun
  obtain ⟨rows, hrows, heq⟩ := Option.map_eq_some_iff.mp hrun
  simp only [Prod.mk.injEq] at heq
  obtain ⟨hmax, hinv⟩ := heq
  have hrec : Recorded (env_of patient) (fun s a => s.overrides a = none) s log :=
    (reaches_of_run hs).mono fun u a hc => Option.isNone_iff_eq_none.mp hc
  exact ⟨s, log, rows, hrows, hmax, hinv,
    invocations_bounded_of_no_override (env_of patient) s s log log 0 rows "a" hrec hrows .refl⟩

end EventFlow
