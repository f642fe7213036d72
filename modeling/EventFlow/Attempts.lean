/-
Which attempt a result is credited to.

The completion of `process_job` tests that the node is RUNNING and nothing
else, so a worker that was overtaken by a recovery, a failure and a further
attempt finds the node RUNNING again and credits its old result to the new
attempt ([`not_credited`]). [`credited_of_oneAttempt`] is the condition under
which that cannot happen: whenever a node is claimed, whoever holds it holds it
under the attempt that is committed at that moment. The invariant is that a
holder of a RUNNING node holds the committed attempt.
-/
import EventFlow.NodeLife
import EventFlow.Safety

set_option autoImplicit false

namespace EventFlow

open Transition

/-- A result of another attempt than the committed one changes no row and no
other task. -/
def Sys.Credited (env : Env) (s : Sys) : Prop :=
  ∀ t result s' m context execution rows, s.step env (.complete t result) = some s' →
    (s.tasks t).phase = .invoked m context execution →
    s.executions context.execution_id = some rows →
    context.attempt ≠ (rows.nodes.row context.node_id).attempt →
    s'.executions = s.executions ∧ ∀ t', t' ≠ t → s'.tasks t' = s.tasks t'

/-- Whoever holds the node that `a` claims, the claiming task included, holds it
under its committed attempt. -/
def Sys.OneAttempt (s : Sys) (a : Action) : Prop :=
  ∀ e n k rows, s.claims a = some (e, n, k) → s.executions e = some rows →
    k = (rows.nodes.row n).attempt ∧
    ∀ t m k', (s.tasks t).phase.held = some (m, e, n, k') → k' = (rows.nodes.row n).attempt

/-- A RUNNING node is held under its committed attempt only. -/
def AttemptInv (s : Sys) : Prop :=
  ∀ t m e n k rows, (s.tasks t).phase.held = some (m, e, n, k) → s.executions e = some rows →
    (rows.nodes.row n).status = .RUNNING → k = (rows.nodes.row n).attempt

section Attempts

variable {env : Env} {s s' : Sys} {a : Action}

/-- One step. The invariant speaks of RUNNING nodes, and only a claim makes a node
RUNNING; any other step leaves a RUNNING node with the attempt it had. So only claims have
to be looked at, and for these the condition says what is needed: everybody who holds the
node at that moment holds the committed attempt. -/
theorem AttemptInv.effect (h : AttemptInv s) (heff : Effect env s a s')
    (hone : s.OneAttempt a) : AttemptInv s' := by
  intro t m e n k rows' hheld hrows' hrun
  rcases heff.nodeStep hrows' with ⟨rfl, hfirst⟩ | ⟨rows, hrows, -, hnode⟩
  · -- a new execution has no RUNNING node
    rcases hfirst n with ⟨hq, -, -⟩ | ⟨hp, -⟩
    · rw [hrun] at hq
      cases hq
    · rw [hrun] at hp
      cases hp
  · -- the attempt is the same, and the node was RUNNING before or is claimed now
    have hbefore : (rows'.nodes.row n).attempt = (rows.nodes.row n).attempt ∧
        ((rows.nodes.row n).status = .RUNNING ∨ ∃ k₀, s.claims a = some (e, n, k₀)) := by
      cases hnode n with
      | same hst hatt => exact ⟨hatt, .inl (hst ▸ hrun)⟩
      | claim k₀ hclaim hst hatt => exact ⟨hatt, .inr ⟨k₀, hclaim⟩⟩
      | revert _ _ _ _ _ _ _ hold hst hatt => exact ⟨hatt, .inl hold⟩
      | skip hold hst hatt =>
          rw [hrun] at hst
          cases hst
      | queue hold hst hatt howed =>
          rw [hrun] at hst
          cases hst
      | finish hold hst hatt => exact ⟨hatt, .inl hold⟩
    rw [hbefore.1]
    -- who holds the node held it before or has just claimed it
    rcases heff.held hheld with hheld | ⟨hclaim, -, -⟩
    · rcases hbefore.2 with hr | ⟨k₀, hclaim⟩
      · exact h t m e n k rows hheld hrows hr
      · exact (hone e n k₀ rows hclaim hrows).2 t m k hheld
    · exact (hone e n k rows hclaim hrows).1

/-- A completion that writes found its node RUNNING. -/
theorem credited_of_inv (ht : s.Typed env) (h : AttemptInv s) : s.Credited env := by
  intro t result s' m context execution rows hs hphase hrows hatt
  obtain ⟨u, hu, rfl⟩ := Option.map_eq_some_iff.mp hs
  refine ⟨?_, fun t' ht' => (effect_of_act ht hu).tasks_of_ne fun heq => ht' ?_⟩
  · -- a completion that writes nothing leaves nothing to show
    rcases complete_cases ht hu with rfl | ⟨_, _, _, _, -, -, -, rfl⟩ |
      ⟨m₁, context₁, execution₁, rows₁, d, node_def, session, pubs, hphase₁, hrows₁, -, -, -,
        hdone, rfl⟩
    · rfl
    · rfl
    · rw [hphase, Phase.invoked.injEq] at hphase₁
      obtain ⟨-, rfl, -⟩ := hphase₁
      rw [hrows, Option.some.injEq] at hrows₁
      subst hrows₁
      refine absurd (h t m _ _ context.attempt rows (by rw [hphase]; rfl) hrows ?_) hatt
      cases hdone with
      | succeed targets _ hkey hrun => exact hrun
      | requeue hkey hrun => exact hrun
      | bury hkey hrun => exact hrun
  · rw [Action.task, Option.some.injEq] at heq
    exact heq.symm

end Attempts

/-- **A result is only credited to the attempt that produced it**, in every run in which a
node is only claimed while everybody who holds it holds its committed attempt. The
condition is on claims, the conclusion about completions. What connects them is
[`AttemptInv`]: a task that holds a node which is RUNNING holds the attempt in the row. A
completion writes RUNNING rows only, so the result goes to the attempt for which the
executor was called. -/
theorem credited_of_oneAttempt (env : Env) (s : Sys)
    (hrun : Reaches (Sys.step env) Sys.OneAttempt Sys.init s) : s.Credited env := by
  refine credited_of_inv (typed_of_reaches hrun) (Sys.invariant_of_effect AttemptInv hrun typed_init
    ?_ (fun _ _ h => h) fun u a v _ hinv hone heff => hinv.effect heff hone)
  intro t m e n k rows hheld
  cases hheld

/-- One node, three attempts. -/
def patient : WorkflowDefinition where
  name := "patient"
  nodes := [node_a]

/-- Worker 1 is overtaken: its message is recovered by 2, which fails, and 3
claims the second attempt. -/
def overtaken_run : List Action :=
  [.start 0 0 none 0, .publish 0, .claim 1 0, .flush 1, .flush 1, .invoke 1,
    .recover 2 0, .flush 2, .reclaim 2, .flush 2, .flush 2, .invoke 2, .complete 2 failed,
    .publish 2, .claim 3 1]

/-- What a late success of worker 1 meets: its own attempt, the committed one,
and the status before and after. -/
def late_result (s : Sys) : Option (ℕ × ℕ × NodeExecutionStatus × Option NodeExecutionStatus) :=
  match (s.tasks 1).phase, s.executions 0 with
  | .invoked _ context _, some rows =>
    if context.execution_id = 0 ∧ context.node_id = "a" then
      ((s.step (env_of patient) (.complete 1 succeeded)).map fun s' =>
        (context.attempt, (rows.nodes.row "a").attempt, (rows.nodes.row "a").status,
          s'.node_status 0 "a"))
    else none
  | _, _ => none

/-- The result of attempt 1 completes attempt 2. -/
theorem not_credited : ¬ ∀ (env : Env) (s : Sys),
    Reaches (Sys.step env) (fun _ a => a.fine = true) Sys.init s → s.Credited env := by
  intro h
  have hlate : (run (restrict (Sys.step (env_of patient)) fun _ a => a.fine) Sys.init
      overtaken_run).bind late_result = some (1, 2, .RUNNING, some .SUCCEEDED) := by
    decide +kernel
  obtain ⟨s, hs, hlate⟩ := Option.bind_eq_some_iff.mp hlate
  have hcred := h (env_of patient) s (reaches_of_run hs)
  unfold late_result at hlate
  split at hlate
  · rename_i m context execution rows hphase hrows
    split at hlate
    · rename_i hctx
      obtain ⟨s', hs', heq⟩ := Option.map_eq_some_iff.mp hlate
      simp only [Prod.mk.injEq] at heq
      obtain ⟨h1, h2, h3, h4⟩ := heq
      obtain ⟨hsame, -⟩ := hcred 1 succeeded s' m context execution rows hs' hphase
        (by rw [hctx.1, hrows]) (by rw [hctx.2]; omega)
      obtain ⟨rows', hrows', -, hst⟩ := Sys.node_status_eq_some h4
      rw [hsame, hrows, Option.some.injEq] at hrows'
      subst hrows'
      rw [h3] at hst
      cases hst
    · cases hlate
  · cases hlate

/-- `OneAttempt`, looked at for the first `bound` tasks. -/
def Sys.one_attempt (bound : ℕ) (s : Sys) (a : Action) : Bool :=
  match s.claims a with
  | some (e, n, k) =>
    match s.executions e with
    | some rows =>
      k == (rows.nodes.row n).attempt && (List.range bound).all fun t =>
        match (s.tasks t).phase.held with
        | some (_, e', n', k') => decide (e' = e ∧ n' = n → k' = (rows.nodes.row n).attempt)
        | none => true
    | none => true
  | none => true

theorem Sys.oneAttempt_of_check {bound : ℕ} {s : Sys} {a : Action} (hidle : s.IdleFrom bound)
    (h : s.one_attempt bound a = true) : s.OneAttempt a := by
  intro e n k rows hclaim hrows
  simp only [Sys.one_attempt, hclaim, hrows, Bool.and_eq_true, beq_iff_eq,
    List.all_eq_true, List.mem_range] at h
  refine ⟨h.1, fun t m k' hheld => ?_⟩
  by_cases ht : t < bound
  · have := h.2 t ht
    simp only [hheld, decide_eq_true_eq] at this
    exact this ⟨trivial, trivial⟩
  · rw [hidle t (not_lt.mp ht)] at hheld
    cases hheld

/-- A recovery that finds the worker gone, and its re-run. -/
theorem credited_of_oneAttempt_patient :
    ∃ s : Sys, s.node_status 0 "a" = some .RUNNING ∧ s.Credited (env_of patient) := by
  have hst : (run (restrict (Sys.step (env_of patient)) fun s a => a.below 3 && s.one_attempt 3 a)
      Sys.init [.start 0 0 none 0, .publish 0, .claim 1 0, .crash 1, .recover 2 0, .flush 2,
        .reclaim 2]).bind (fun s => s.node_status 0 "a") = some .RUNNING := by decide +kernel
  obtain ⟨s, hs, hst⟩ := Option.bind_eq_some_iff.mp hst
  exact ⟨s, hst, credited_of_oneAttempt (env_of patient) s
    (reaches_of_checked_run (fun _ _ => Sys.oneAttempt_of_check) hs)⟩

end EventFlow
