/-
No lost job: every node that is QUEUED or RUNNING is named by an entry that has
not been acked, or by a publish that is about to be made.

The database is committed before the publish and the ack comes last, so a crash
or a failing publish in between loses the message ([`not_no_lost_job`]).
Recovery opens two more holes: a revert to QUEUED while the first worker is
still alive lets that worker ack the message of a node that is waiting again,
and a claim from the cached instance can revive a node that has finished and
whose message is acked. [`no_lost_job_of_kept`] says that there is no other: in
a run without these steps nothing is lost.

The invariant [`DeliveryInv`] follows attempts. An entry never names an attempt
that is yet to come; a task that has finished with its entry, or found nothing
to do, leaves behind a node that is terminal or at a later attempt; a task that
still holds a claim never sees its node QUEUED at the attempt of its entry. So
the entry of the current attempt of a node with work is never acked.
-/
import EventFlow.NodeLife
import EventFlow.Safety

set_option autoImplicit false

namespace EventFlow

open Transition

/-! ## The stream and the tasks along a step -/

/-- The entry a task has finished with. -/
def Phase.done : Phase → Option ℕ
  | .publishing msg _ _ _ => msg
  | .returning msg => msg
  | _ => none

section Steps

variable {env : Env} {s s' : Sys} {a : Action}

/-- Entries stay, and only an ack marks them. -/
theorem Effect.stream_stays {i : ℕ} {entry : StreamEntry} (h : Effect env s a s')
    (hi : s.stream[i]? = some entry) :
    ∃ entry', s'.stream[i]? = some entry' ∧ entry'.job = entry.job ∧
      (entry'.acked = entry.acked ∨ ∃ t, s.tasks t = ⟨.returning (some i), []⟩) := by
  cases h with
  | @publish t e msg job owed sent events htask =>
      refine ⟨entry, ?_, rfl, .inl rfl⟩
      exact List.getElem?_append_left (List.getElem?_eq_some_iff.mp hi).choose ▸ hi
  | @ack t m htask =>
      by_cases hm : m = i
      · subst hm
        refine ⟨{ entry with acked := true }, ?_, rfl, .inr ⟨t, htask⟩⟩
        simp only [Sys.xack, List.getElem?_modify, hi, if_true]
        rfl
      · refine ⟨entry, ?_, rfl, .inl rfl⟩
        simp only [Sys.xack, List.getElem?_modify, hi, if_neg hm]
        rfl
  | _ => exact ⟨entry, hi, rfl, .inl rfl⟩

/-- An entry was there before or has just been published. -/
theorem Effect.stream_new {i : ℕ} {entry' : StreamEntry} (h : Effect env s a s')
    (hi : s'.stream[i]? = some entry') :
    (∃ entry, s.stream[i]? = some entry ∧ entry.job = entry'.job) ∨
      ∃ t, entry'.job ∈ (s.tasks t).phase.owes := by
  cases h with
  | @publish t e msg job owed sent events htask =>
      simp only [List.getElem?_append, List.getElem?_singleton] at hi
      split at hi
      · exact .inl ⟨entry', hi, rfl⟩
      · split at hi
        · cases hi
          refine .inr ⟨t, ?_⟩
          rw [htask]
          exact List.mem_cons_self
        · cases hi
  | @ack t m htask =>
      obtain ⟨entry, hentry, rfl⟩ := getElem?_xack hi
      exact .inl ⟨entry, hentry, rfl⟩
  | _ => exact .inl ⟨entry', hi, rfl⟩

/-- Node `n` of `e` is named at attempt `k` by an entry that has not been
acked. -/
def Sys.Pending (s : Sys) (e : ℕ) (n : String) (k : ℕ) : Prop :=
  ∃ (i : ℕ) (entry : StreamEntry), s.stream[i]? = some entry ∧ entry.acked = false ∧
    entry.job.execution_id = e ∧ entry.job.node_id = n ∧ entry.job.attempt = k

/-- What a task owes belongs to an execution it names. -/
theorem mem_execution_ids_of_owes {phase : Phase} {job : Job} (h : job ∈ phase.owes) :
    job.execution_id ∈ phase.execution_ids := by
  cases phase with
  | publishing msg e owed sent =>
      exact List.mem_cons_of_mem _ (List.mem_map.mpr ⟨job, h, rfl⟩)
  | _ => cases h

/-- A publish that is owed stays owed or is made, unless its task dies. While a task owes
a publish, the only steps it has are to publish, to fail in it and to crash; the last two
are excluded, and the first makes a pending entry of the job. -/
theorem Effect.owed_stays {e k : ℕ} {n : String} (h : Effect env s a s')
    (hlive : ∀ t, a = .crash t ∨ a = .publish_error t → (s.tasks t).phase.owes = [])
    (howed : s.Owed e n k) : s'.Owed e n k ∨ s'.Pending e n k := by
  obtain ⟨t, job, hjob, he, hn, hk⟩ := howed
  by_cases hta : a.task = some t
  · -- the only step of a task that owes a publish is to publish
    have stuck : ∀ {p : Phase}, (s.tasks t).phase = p → p.owes ≠ [] := by
      rintro p rfl
      exact List.ne_nil_of_mem hjob
    cases h with
    | refused => exact .inl ⟨t, job, hjob, he, hn, hk⟩
    | delete => cases hta
    | @publish t₀ e₀ msg job₀ owed sent events htask =>
        cases hta
        rw [htask] at hjob
        rcases List.mem_cons.mp hjob with rfl | hmem
        · refine .inr ⟨s.stream.length, { job }, ?_, rfl, he, hn, hk⟩
          simp
        · refine .inl ⟨t, job, ?_, he, hn, hk⟩
          simp only [Function.update_self]
          exact hmem
    | stop ha ht₀ =>
        obtain rfl := Option.some.inj (ht₀.symm.trans hta)
        rcases ha with ha | ha | ha
        · exact absurd ha.1 (stuck rfl)
        · exact absurd (hlive _ (.inl ha)) (stuck rfl)
        · exact absurd (hlive _ (.inr ha)) (stuck rfl)
    | start hidle => cases hta; exact absurd rfl (stuck hidle)
    | retry hidle => cases hta; exact absurd rfl (stuck hidle)
    | discard ha hidle =>
        rcases ha with rfl | rfl | rfl <;> cases hta <;> exact absurd rfl (stuck hidle)
    | discard_logged ha hidle =>
        rcases ha with rfl | rfl <;> cases hta <;> exact absurd rfl (stuck hidle)
    | claim ha hidle =>
        rcases ha with ⟨rfl, -⟩ | ⟨rfl, -⟩ <;> cases hta <;> exact absurd rfl (stuck hidle)
    | recover_raised hidle => cases hta; exact absurd rfl (stuck hidle)
    | recover hidle => cases hta; exact absurd rfl (stuck hidle)
    | reclaim htask => cases hta; exact absurd rfl (stuck (congrArg Task.phase htask))
    | reclaim_discard htask => cases hta; exact absurd rfl (stuck (congrArg Task.phase htask))
    | invoke htask => cases hta; exact absurd rfl (stuck (congrArg Task.phase htask))
    | stale hphase => cases hta; exact absurd rfl (stuck hphase)
    | complete hphase => cases hta; exact absurd rfl (stuck hphase)
    | finish htask => cases hta; exact absurd rfl (stuck (congrArg Task.phase htask))
    | finish_gone htask => cases hta; exact absurd rfl (stuck (congrArg Task.phase htask))
    | @flush t₀ phase event events htask hfl =>
        cases hta
        refine absurd ?_ (stuck (congrArg Task.phase htask))
        cases phase <;> first | rfl | cases hfl
    | ack htask => cases hta; exact absurd rfl (stuck (congrArg Task.phase htask))
    | reply htask => cases hta; exact absurd rfl (stuck (congrArg Task.phase htask))
  · refine .inl ⟨t, job, ?_, he, hn, hk⟩
    rwa [h.tasks_of_ne hta]

/-- A job that is owed after a step was owed before, or names a node at its new attempt.
The phase `publishing` is entered with a commit, and the jobs are taken from the rows that
this commit writes. -/
theorem Effect.owes_attempt {t : ℕ} {job : Job} (h : Effect env s a s')
    (hjob : job ∈ (s'.tasks t).phase.owes) :
    job ∈ (s.tasks t).phase.owes ∨
      ∃ rows', s'.executions job.execution_id = some rows' ∧ 1 ≤ job.attempt ∧
        job.attempt = (rows'.nodes.row job.node_id).attempt := by
  have hcomes := h.comes t
  cases hphase : (s'.tasks t).phase with
  | publishing msg e owed sent =>
      rw [hphase] at hjob hcomes
      -- the jobs of a session that has been committed to `e`
      have committed : ∀ {session : Session} {pubs : List String} {rows' : ExecutionRows},
          owed = Sys.jobs_of session pubs → session.execution_id = e →
          s'.executions e = some rows' → rows'.nodes = session.nodes →
          (∀ n ∈ pubs, 1 ≤ (session.nodes.row n).attempt) →
          ∃ rows', s'.executions job.execution_id = some rows' ∧ 1 ≤ job.attempt ∧
            job.attempt = (rows'.nodes.row job.node_id).attempt := by
        intro session pubs rows' howed hid hrows' hnodes hpos
        subst howed
        obtain ⟨n, hn, rfl⟩ := List.mem_map.mp hjob
        refine ⟨rows', ?_, hpos n hn, ?_⟩
        · rw [← hrows', ← hid]
          rfl
        · rw [hnodes]
          rfl
      cases hcomes with
      | stayed hold => exact .inl (by rw [hold]; exact hjob)
      | published hold => exact .inl (by rw [hold]; exact List.mem_cons_of_mem _ hjob)
      | started hok hrows' =>
          obtain ⟨version, -, -, hsteps, -, -, -, -, -, -, -, -, hq, -⟩ := start_execution_spec hok
          refine .inr (committed rfl hsteps.sameFrame.execution_id hrows' rfl fun n hn => ?_)
          rw [hq n hn, NodeExecution.enter_queued_attempt]
          exact Nat.succ_le_succ (Nat.zero_le _)
      | retried hrows hkey hst hid hrows' hnodes hrow =>
          refine .inr (committed rfl hid hrows' hnodes fun n hn => ?_)
          rw [List.mem_singleton] at hn
          rw [hn, hrow, NodeExecution.enter_queued_attempt]
          exact Nat.succ_le_succ (Nat.zero_le _)
      | completed hold hrows hid hrows' hnodes hdone =>
          refine .inr (committed rfl hid hrows' hnodes fun n hn => ?_)
          cases hdone with
          | succeed targets _ hkey hrun hres hT heff hdead hexec =>
              rw [heff.queued n hn, NodeExecution.enter_queued_attempt]
              exact Nat.succ_le_succ (Nat.zero_le _)
          | requeue hkey hrun hres hleft hnodes hdead hexec =>
              rw [List.mem_singleton] at hn
              rw [hn, hnodes, Table.row_set_self, NodeExecution.retry,
                NodeExecution.enter_queued_attempt]
              exact Nat.succ_le_succ (Nat.zero_le _)
          | bury => cases hn
  | _ =>
      rw [hphase] at hjob
      cases hjob

/-- A recovered job in hand was in hand before, or has just been taken over from
its entry with a row that is not terminal. -/
theorem Effect.recovered {t m : ℕ} {job : Job} {cached : NodeExecution} (h : Effect env s a s')
    (hphase : (s'.tasks t).phase = .recovered m job cached) :
    (s.tasks t).phase = .recovered m job cached ∨
      ∃ entry, s.stream[m]? = some entry ∧ entry.job = job ∧
        cached.status ∉ TERMINAL_NODE_STATUSES := by
  have hcomes := h.comes t
  rw [hphase] at hcomes
  cases hcomes with
  | stayed hold => exact .inl hold
  | @recovered _ entry rows ha hentry hst =>
      refine .inr ⟨entry, hentry, rfl, ?_⟩
      unfold NodeExecution.revert
      split
      · simp [TERMINAL_NODE_STATUSES]
      · exact hst

/-- **When a task has finished with an entry**: it had before; or it found the node of the
entry gone or terminal; or it held a claim on it and found it not RUNNING, or has
completed it; or it is a recovered job whose instance was terminal. In the first of these
cases nothing is new; in the others the entry is about to be acked by a task that has
found, or brought about, that the node has no use for it any more. -/
theorem Effect.done {t m : ℕ} (h : Effect env s a s')
    (hdone : (s'.tasks t).phase.done = some m) :
    (s.tasks t).phase.done = some m ∨
    (∃ entry, s.stream[m]? = some entry ∧
      ∀ rows', s'.executions entry.job.execution_id = some rows' →
        entry.job.node_id ∈ rows'.nodes.keys →
        (rows'.nodes.row entry.job.node_id).status ∈ TERMINAL_NODE_STATUSES) ∨
    (∃ e n k rows, (s.tasks t).phase.held = some (m, e, n, k) ∧ s.executions e = some rows ∧
      (((rows.nodes.row n).status ≠ .RUNNING ∧ s'.executions e = some rows) ∨
        ∃ rows', s'.executions e = some rows' ∧
          ((rows'.nodes.row n).status ∈ TERMINAL_NODE_STATUSES ∨
            (rows'.nodes.row n).attempt = (rows.nodes.row n).attempt + 1))) ∨
    ∃ job cached rows, (s.tasks t).phase = .recovered m job cached ∧
      s.executions job.execution_id = some rows ∧
      s'.executions = s.executions ∧
      (job.node_id ∉ rows.nodes.keys ∨ cached.status ∈ TERMINAL_NODE_STATUSES) := by
  have hcomes := h.comes t
  cases hphase : (s'.tasks t).phase with
  -- only two phases have a message that is done with
  | publishing msg e owed sent =>
      rw [hphase] at hdone hcomes
      cases hcomes with
      | stayed hold => exact .inl (by rw [hold]; exact hdone)
      | published hold => exact .inl (by rw [hold]; exact hdone)
      | started => cases hdone
      | retried => cases hdone
      | @completed m₀ result context execution rows rows' d node_def session pubs hold hrows hid
          hrows' hnodes hcomp =>
          cases hdone
          exact .inr (.inr (.inl ⟨_, _, _, rows, by rw [hold]; rfl, hrows,
            .inr ⟨rows', hrows', hnodes ▸ hcomp.moved_on⟩⟩))
  | returning msg =>
      rw [hphase] at hdone hcomes
      cases hdone
      cases hcomes with
      | stayed hold => exact .inl (by rw [hold]; rfl)
      | finished hold => exact .inl (by rw [hold]; rfl)
      | discarded hentry hst => exact .inr (.inl ⟨_, hentry, hst⟩)
      | reclaim_discarded hold hrows hsame hst =>
          exact .inr (.inr (.inr ⟨_, _, _, hold, hrows, hsame, hst⟩))
      | stale hold hrows hsame hst =>
          exact .inr (.inr (.inl ⟨_, _, _, _, by rw [hold]; rfl, hrows,
            .inl ⟨hst, by rw [hsame, hrows]⟩⟩))
  | _ =>
      rw [hphase] at hdone
      cases hdone

end Steps

/-! ## The condition -/

/-- The steps that do not lose a message: a task dies only while it owes
nothing; recovery reverts a RUNNING node only when no live task holds it through
an entry of its current attempt; a recovered job claims a node only while it is
not terminal. -/
def Sys.KeepsJobs (s : Sys) : Action → Prop
  | .crash t => (s.tasks t).phase.owes = []
  | .publish_error t => (s.tasks t).phase.owes = []
  | .recover _ m => ∀ entry rows, s.stream[m]? = some entry →
      s.executions entry.job.execution_id = some rows →
      (rows.nodes.row entry.job.node_id).status = .RUNNING →
      ∀ t m' k entry', (s.tasks t).phase.held
          = some (m', entry.job.execution_id, entry.job.node_id, k) →
        s.stream[m']? = some entry' →
        entry'.job.attempt ≠ (rows.nodes.row entry.job.node_id).attempt
  | .reclaim t => ∀ m job cached rows, (s.tasks t).phase = .recovered m job cached →
      cached.status = .QUEUED → s.executions job.execution_id = some rows →
      (rows.nodes.row job.node_id).status ∉ TERMINAL_NODE_STATUSES
  | _ => True

/-- Every node with work is named by an entry that has not been acked or by a
publish that a living task is about to make. -/
def Sys.NoLostJob (s : Sys) : Prop :=
  ∀ e rows, s.executions e = some rows → ∀ n ∈ rows.nodes.keys,
    (rows.nodes.row n).status = .QUEUED ∨ (rows.nodes.row n).status = .RUNNING →
    ∃ k, s.Pending e n k ∨ s.Owed e n k

/-! ## The invariant -/

/-- The node of a job is past it: terminal, or at a later attempt. -/
def ExecutionRows.Past (rows : ExecutionRows) (job : Job) : Prop :=
  (rows.nodes.row job.node_id).status ∈ TERMINAL_NODE_STATUSES ∨
    job.attempt < (rows.nodes.row job.node_id).attempt

structure DeliveryInv (s : Sys) : Prop where
  /-- A PENDING row has not been tried, and RETRYING is never committed. -/
  row : ∀ e rows n, s.executions e = some rows →
    ((rows.nodes.row n).status = .PENDING → (rows.nodes.row n).attempt = 0) ∧
      (rows.nodes.row n).status ≠ .RETRYING
  /-- No job names an attempt that is yet to come. -/
  entry : ∀ (i : ℕ) (entry : StreamEntry) rows, s.stream[i]? = some entry →
    s.executions entry.job.execution_id = some rows →
    1 ≤ entry.job.attempt ∧ entry.job.attempt ≤ (rows.nodes.row entry.job.node_id).attempt
  owed : ∀ t, ∀ job ∈ (s.tasks t).phase.owes, ∀ rows,
    s.executions job.execution_id = some rows →
    1 ≤ job.attempt ∧ job.attempt ≤ (rows.nodes.row job.node_id).attempt
  /-- A held claim came with an entry for its node. -/
  held : ∀ t m e n k, (s.tasks t).phase.held = some (m, e, n, k) →
    ∃ entry : StreamEntry, s.stream[m]? = some entry ∧ entry.job.execution_id = e ∧
      entry.job.node_id = n
  recovered : ∀ t m job cached, (s.tasks t).phase = .recovered m job cached →
    cached.status ∉ TERMINAL_NODE_STATUSES ∧
      ∃ entry : StreamEntry, s.stream[m]? = some entry ∧ entry.job = job
  /-- Whoever holds a claim does not see its node QUEUED at the attempt of its
  entry. -/
  waiting : ∀ t m e n k (entry : StreamEntry) rows,
    (s.tasks t).phase.held = some (m, e, n, k) → s.stream[m]? = some entry →
    s.executions e = some rows → (rows.nodes.row n).status = .QUEUED →
    entry.job.attempt < (rows.nodes.row n).attempt
  /-- Whoever is done with an entry leaves a node that is past it. -/
  done : ∀ t m, (s.tasks t).phase.done = some m →
    ∃ entry : StreamEntry, s.stream[m]? = some entry ∧
      ∀ rows, s.executions entry.job.execution_id = some rows →
        entry.job.node_id ∈ rows.nodes.keys → rows.Past entry.job
  /-- A node with work is named at its current attempt. -/
  named : ∀ e rows, s.executions e = some rows → ∀ n ∈ rows.nodes.keys,
    (rows.nodes.row n).status = .QUEUED ∨ (rows.nodes.row n).status = .RUNNING →
    s.Pending e n (rows.nodes.row n).attempt ∨ s.Owed e n (rows.nodes.row n).attempt

section Inv

variable {env : Env} {s s' : Sys} {a : Action} {e : ℕ} {n : String}
  {old new : NodeExecution}

/-- Attempts only grow. -/
theorem NodeStep.attempt_le (h : NodeStep s s' a e n old new) : old.attempt ≤ new.attempt := by
  cases h with
  | same _ hatt => exact hatt.ge
  | claim _ _ _ hatt => exact hatt.ge
  | revert _ _ _ _ _ _ _ _ _ hatt => exact hatt.ge
  | skip _ _ hatt => exact hatt.ge
  | queue _ _ hatt => omega
  | finish _ _ hatt => exact hatt.ge

/-- A claim under the condition finds a node that has work. For a claim from the row this
is what the claim tests; a claim from a cached instance tests the instance only, and here
the condition is needed. -/
theorem DeliveryInv.claims (h : DeliveryInv s) (hkeep : s.KeepsJobs a) {k : ℕ}
    {rows : ExecutionRows} (hclaim : s.claims a = some (e, n, k))
    (hrows : s.executions e = some rows) :
    (rows.nodes.row n).status = .QUEUED ∨ (rows.nodes.row n).status = .RUNNING := by
  cases a with
  | claim t m =>
      simp only [Sys.claims] at hclaim
      split at hclaim
      · split at hclaim
        · rename_i entry hentry r hr
          split at hclaim
          · rename_i hst
            cases hclaim
            rw [hrows, Option.some.injEq] at hr
            subst hr
            exact .inl hst
          · cases hclaim
        · cases hclaim
      · cases hclaim
  | recover_claim t m =>
      simp only [Sys.claims] at hclaim
      split at hclaim
      · split at hclaim
        · rename_i entry hentry r hr
          split at hclaim
          · rename_i hst
            cases hclaim
            rw [hrows, Option.some.injEq] at hr
            subst hr
            exact hst
          · cases hclaim
        · cases hclaim
      · cases hclaim
  | reclaim t =>
      simp only [Sys.claims] at hclaim
      split at hclaim
      · rename_i m job cached hphase
        split at hclaim
        · rename_i hq
          cases hclaim
          -- the instance says QUEUED; the condition is that the row is not terminal by now
          have hnt := hkeep m job cached rows hphase hq hrows
          obtain ⟨-, entry, hentry, rfl⟩ := h.recovered t m job cached hphase
          obtain ⟨h1, h2⟩ := h.entry m entry rows hentry hrows
          obtain ⟨hpend, hretry⟩ := h.row _ rows entry.job.node_id hrows
          cases hst : (rows.nodes.row entry.job.node_id).status with
          | QUEUED => exact .inl rfl
          | RUNNING => exact .inr rfl
          | PENDING =>
              -- a PENDING node has no attempt, and so no message
              have := hpend hst
              omega
          | RETRYING => exact absurd hst hretry
          | SUCCEEDED => simp [hst, TERMINAL_NODE_STATUSES] at hnt
          | FAILED => simp [hst, TERMINAL_NODE_STATUSES] at hnt
          | SKIPPED => simp [hst, TERMINAL_NODE_STATUSES] at hnt
          | DEAD_LETTERED => simp [hst, TERMINAL_NODE_STATUSES] at hnt
        · cases hclaim
      · cases hclaim
  | _ => cases hclaim

/-- A node that is past a job stays past it. -/
theorem DeliveryInv.past (h : DeliveryInv s) (hkeep : s.KeepsJobs a) {job : Job}
    {rows rows' : ExecutionRows} (hrows : s.executions job.execution_id = some rows)
    (hle : job.attempt ≤ (rows.nodes.row job.node_id).attempt)
    (hstep : NodeStep s s' a job.execution_id job.node_id (rows.nodes.row job.node_id)
      (rows'.nodes.row job.node_id))
    (hpast : rows.Past job) : rows'.Past job := by
  rcases hpast with hterm | hlt
  · -- a terminal node is only moved by `retry_node`
    have hno : ∀ st, (rows.nodes.row job.node_id).status = st →
        st ∉ TERMINAL_NODE_STATUSES → False := fun st hst hn => hn (hst ▸ hterm)
    cases hstep with
    | same hst hatt => exact .inl (hst ▸ hterm)
    | claim k hclaim hst hatt =>
        exact ((h.claims hkeep hclaim hrows).elim (fun h => hno _ h (by decide))
          fun h => hno _ h (by decide)).elim
    | revert _ _ _ _ _ _ _ hold => exact (hno _ hold (by decide)).elim
    | skip hold => exact (hno _ hold (by decide)).elim
    | queue hold hst hatt howed => exact .inr (by omega)
    | finish hold => exact (hno _ hold (by decide)).elim
  · exact .inr (hlt.trans_le hstep.attempt_le)

/-- **A node that keeps its work keeps its entry.** The entry of its current attempt is
nobody's to ack. For if a task could ack it, that task would have finished with it, and
the node would be terminal or at a later attempt; but it has work, and at this attempt. -/
theorem DeliveryInv.named_stays (h : DeliveryInv s) (heff : Effect env s a s')
    (hkeep : s.KeepsJobs a) {rows : ExecutionRows} (hrows : s.executions e = some rows)
    (hn : n ∈ rows.nodes.keys)
    (hst : (rows.nodes.row n).status = .QUEUED ∨ (rows.nodes.row n).status = .RUNNING) :
    s'.Pending e n (rows.nodes.row n).attempt ∨ s'.Owed e n (rows.nodes.row n).attempt := by
  rcases h.named e rows hrows n hn hst with ⟨i, entry, hi, hacked, rfl, rfl, hk⟩ | howed
  · obtain ⟨entry', hi', hjob, hack⟩ := heff.stream_stays hi
    refine .inl ⟨i, entry', hi', ?_, by rw [hjob], by rw [hjob], by rw [hjob, hk]⟩
    rcases hack with hack | ⟨t, htask⟩
    · rw [hack, hacked]
    · obtain ⟨entry₀, hi₀, hpast⟩ := h.done t i (by rw [htask]; rfl)
      rw [hi, Option.some.injEq] at hi₀
      subst hi₀
      rcases hpast rows hrows hn with hterm | hlt
      · rcases hst with hst | hst <;> rw [hst] at hterm <;> simp [TERMINAL_NODE_STATUSES] at hterm
      · omega
  · refine (heff.owed_stays (fun t ht => ?_) howed).symm
    rcases ht with rfl | rfl
    · exact hkeep
    · exact hkeep

/-- A holder that finds its node not RUNNING finds it past its entry. -/
theorem DeliveryInv.past_of_not_running (h : DeliveryInv s) {t m k : ℕ} {entry : StreamEntry}
    {rows : ExecutionRows}
    (hheld : (s.tasks t).phase.held = some (m, entry.job.execution_id, entry.job.node_id, k))
    (hi : s.stream[m]? = some entry) (hrows : s.executions entry.job.execution_id = some rows)
    (h1 : 1 ≤ entry.job.attempt)
    (h2 : entry.job.attempt ≤ (rows.nodes.row entry.job.node_id).attempt)
    (hst : (rows.nodes.row entry.job.node_id).status ≠ .RUNNING) : rows.Past entry.job := by
  obtain ⟨hpend, hretry⟩ := h.row _ rows entry.job.node_id hrows
  have hwait := h.waiting t m _ _ k entry rows hheld hi hrows
  unfold ExecutionRows.Past
  cases hs : (rows.nodes.row entry.job.node_id).status with
  | QUEUED => exact .inr (hwait hs)
  | RUNNING => exact absurd hs hst
  | PENDING =>
      have := hpend hs
      omega
  | RETRYING => exact absurd hs hretry
  | SUCCEEDED => exact .inl (by decide)
  | FAILED => exact .inl (by decide)
  | SKIPPED => exact .inl (by decide)
  | DEAD_LETTERED => exact .inl (by decide)

/-- The rows before a step that does not create them. -/
theorem DeliveryInv.rows_before {rows' : ExecutionRows} (heff : Effect env s a s')
    (hrows' : s'.executions e = some rows') (he : e < s.next_execution_id) :
    ∃ rows, s.executions e = some rows ∧ rows'.nodes.keys = rows.nodes.keys ∧
      ∀ n, NodeStep s s' a e n (rows.nodes.row n) (rows'.nodes.row n) :=
  (heff.nodeStep hrows').resolve_left fun hnew => absurd hnew.1 he.ne

/-- The rows of an entry that was in the stream before the step. -/
theorem DeliveryInv.entry_before (h : DeliveryInv s) (ht : s.Typed env)
    (heff : Effect env s a s') {i : ℕ} {entry : StreamEntry} {rows' : ExecutionRows}
    (hi : s.stream[i]? = some entry)
    (hrows' : s'.executions entry.job.execution_id = some rows') :
    ∃ rows, s.executions entry.job.execution_id = some rows ∧
      rows'.nodes.keys = rows.nodes.keys ∧
      (∀ n, NodeStep s s' a entry.job.execution_id n (rows.nodes.row n) (rows'.nodes.row n)) ∧
      1 ≤ entry.job.attempt ∧
      entry.job.attempt ≤ (rows.nodes.row entry.job.node_id).attempt := by
  obtain ⟨rows, hrows, hkeys, hstep⟩ := DeliveryInv.rows_before heff hrows' (ht.entry_lt hi)
  exact ⟨rows, hrows, hkeys, hstep, h.entry i entry rows hi hrows⟩

/-! ### One lemma for each field -/

theorem DeliveryInv.row_effect (h : DeliveryInv s) (heff : Effect env s a s') {e : ℕ}
    {rows' : ExecutionRows} (n : String) (hrows' : s'.executions e = some rows') :
    ((rows'.nodes.row n).status = .PENDING → (rows'.nodes.row n).attempt = 0) ∧
      (rows'.nodes.row n).status ≠ .RETRYING := by
  rcases heff.nodeStep hrows' with ⟨-, hfirst⟩ | ⟨rows, hrows, -, hstep⟩
  · rcases hfirst n with ⟨hq, -, -⟩ | ⟨hp, h0⟩
    · simp [hq]
    · simp [hp, h0]
  · obtain ⟨hpend, hretry⟩ := h.row e rows n hrows
    cases hstep n with
    | same hst hatt => rw [hst, hatt]; exact ⟨hpend, hretry⟩
    | claim k hclaim hst hatt => simp [hst]
    | revert _ _ _ _ _ _ _ _ hst hatt => simp [hst]
    | skip hold hst hatt => simp [hst]
    | queue hold hst hatt howed => simp [hst]
    | finish hold hst hatt => rcases hst with hst | hst <;> simp [hst]

/-- What a task owed before the step is owed for an attempt that has come. -/
theorem DeliveryInv.owed_before (h : DeliveryInv s) (ht : s.Typed env) (heff : Effect env s a s')
    {t : ℕ} {job : Job} (howed : job ∈ (s.tasks t).phase.owes) {rows' : ExecutionRows}
    (hrows' : s'.executions job.execution_id = some rows') :
    1 ≤ job.attempt ∧ job.attempt ≤ (rows'.nodes.row job.node_id).attempt := by
  have hlt := ht.tasks t job.execution_id (mem_execution_ids_of_owes howed)
  obtain ⟨rows, hrows, -, hstep⟩ := DeliveryInv.rows_before heff hrows' hlt
  obtain ⟨h1, h2⟩ := h.owed t _ howed rows hrows
  exact ⟨h1, h2.trans (hstep _).attempt_le⟩

theorem DeliveryInv.entry_effect (h : DeliveryInv s) (ht : s.Typed env)
    (heff : Effect env s a s') {i : ℕ} {entry' : StreamEntry} {rows' : ExecutionRows}
    (hi' : s'.stream[i]? = some entry')
    (hrows' : s'.executions entry'.job.execution_id = some rows') :
    1 ≤ entry'.job.attempt ∧
      entry'.job.attempt ≤ (rows'.nodes.row entry'.job.node_id).attempt := by
  rcases heff.stream_new hi' with ⟨entry, hi, hjob⟩ | ⟨t, howed⟩
  · rw [← hjob] at hrows' ⊢
    obtain ⟨rows, -, -, hstep, h1, h2⟩ := h.entry_before ht heff hi hrows'
    exact ⟨h1, h2.trans (hstep _).attempt_le⟩
  · exact h.owed_before ht heff howed hrows'

theorem DeliveryInv.owed_effect (h : DeliveryInv s) (ht : s.Typed env)
    (heff : Effect env s a s') {t : ℕ} {job : Job} (hjob : job ∈ (s'.tasks t).phase.owes)
    {rows' : ExecutionRows} (hrows' : s'.executions job.execution_id = some rows') :
    1 ≤ job.attempt ∧ job.attempt ≤ (rows'.nodes.row job.node_id).attempt := by
  rcases heff.owes_attempt hjob with howed | ⟨r, hr, h1, h2⟩
  · exact h.owed_before ht heff howed hrows'
  · rw [hr, Option.some.injEq] at hrows'
    subst hrows'
    exact ⟨h1, h2.le⟩

theorem DeliveryInv.held_effect (h : DeliveryInv s) (heff : Effect env s a s') {t m e k : ℕ}
    {n : String} (hheld : (s'.tasks t).phase.held = some (m, e, n, k)) :
    ∃ entry : StreamEntry, s'.stream[m]? = some entry ∧ entry.job.execution_id = e ∧
      entry.job.node_id = n := by
  have hentry : ∃ entry : StreamEntry, s.stream[m]? = some entry ∧
      entry.job.execution_id = e ∧ entry.job.node_id = n := by
    rcases heff.held hheld with hheld |
      ⟨-, -, ⟨entry, hi, he, hn⟩ | ⟨job, cached, hphase, he, hn⟩⟩
    · exact h.held t m e n k hheld
    · exact ⟨entry, hi, he, hn⟩
    · obtain ⟨-, entry, hi, rfl⟩ := h.recovered t m job cached hphase
      exact ⟨entry, hi, he, hn⟩
  obtain ⟨entry, hi, he, hn⟩ := hentry
  obtain ⟨entry', hi', hjob, -⟩ := heff.stream_stays hi
  exact ⟨entry', hi', by rw [hjob, he], by rw [hjob, hn]⟩

theorem DeliveryInv.recovered_effect (h : DeliveryInv s) (heff : Effect env s a s') {t m : ℕ}
    {job : Job} {cached : NodeExecution}
    (hphase : (s'.tasks t).phase = .recovered m job cached) :
    cached.status ∉ TERMINAL_NODE_STATUSES ∧
      ∃ entry : StreamEntry, s'.stream[m]? = some entry ∧ entry.job = job := by
  have hentry : cached.status ∉ TERMINAL_NODE_STATUSES ∧
      ∃ entry : StreamEntry, s.stream[m]? = some entry ∧ entry.job = job := by
    rcases heff.recovered hphase with hphase | ⟨entry, hi, hjob, hst⟩
    · exact h.recovered t m job cached hphase
    · exact ⟨hst, entry, hi, hjob⟩
  obtain ⟨hst, entry, hi, rfl⟩ := hentry
  obtain ⟨entry', hi', hjob, -⟩ := heff.stream_stays hi
  exact ⟨hst, entry', hi', hjob⟩

/-- A holder does not see its node QUEUED at the attempt of its entry. The node can become
QUEUED by a retry, which has advanced its attempt, or by a revert, which the condition
forbids as long as a live task holds it. -/
theorem DeliveryInv.waiting_effect (h : DeliveryInv s) (ht : s.Typed env)
    (heff : Effect env s a s') (hkeep : s.KeepsJobs a) {t m e k : ℕ} {n : String}
    {entry' : StreamEntry} {rows' : ExecutionRows}
    (hheld : (s'.tasks t).phase.held = some (m, e, n, k)) (hi' : s'.stream[m]? = some entry')
    (hrows' : s'.executions e = some rows') (hq : (rows'.nodes.row n).status = .QUEUED) :
    entry'.job.attempt < (rows'.nodes.row n).attempt := by
  rcases heff.held hheld with hheld | ⟨-, ⟨r, hr, hrun⟩, -⟩
  · obtain ⟨entry, hi, rfl, rfl⟩ := h.held t m e n k hheld
    obtain ⟨entry'', hi'', hjob, -⟩ := heff.stream_stays hi
    rw [hi'', Option.some.injEq] at hi'
    subst hi'
    rw [hjob]
    obtain ⟨rows, hrows, -, hstep, h1, h2⟩ := h.entry_before ht heff hi hrows'
    have hwait := h.waiting t m _ _ k entry rows hheld hi hrows
    cases hstep entry.job.node_id with
    | same hst hatt => rw [hatt]; exact hwait (hst ▸ hq)
    | claim _ _ hst => rw [hq] at hst; cases hst
    | revert t₀ m₀ entry₀ ha hentry₀ he₀ hn₀ hold hst hatt =>
        subst ha
        have hne := hkeep entry₀ rows hentry₀ (by rw [he₀, hrows]) (by rw [hn₀, hold]) t m k
          entry (by rw [he₀, hn₀, hheld]) hi
        rw [hn₀] at hne
        omega
    | skip _ hst => rw [hq] at hst; cases hst
    | queue _ _ hatt => omega
    | finish _ hst => rcases hst with hst | hst <;> rw [hq] at hst <;> cases hst
  · rw [hr, Option.some.injEq] at hrows'
    subst hrows'
    rw [hq] at hrun
    cases hrun

/-- What has been finished with stays so. A terminal node is moved on by `retry_node`
only, to a later attempt (the condition excludes the claim from a cached instance that
would revive it), and attempts never go back; so an entry that is past remains past. -/
theorem DeliveryInv.done_effect (h : DeliveryInv s) (ht : s.Typed env) (heff : Effect env s a s')
    (hkeep : s.KeepsJobs a) {t m : ℕ} (hdone : (s'.tasks t).phase.done = some m) :
    ∃ entry : StreamEntry, s'.stream[m]? = some entry ∧
      ∀ rows, s'.executions entry.job.execution_id = some rows →
        entry.job.node_id ∈ rows.nodes.keys → rows.Past entry.job := by
  -- the entry was there before, so it is enough to look at it before the step
  have lift : ∀ {entry : StreamEntry}, s.stream[m]? = some entry →
      (∀ rows', s'.executions entry.job.execution_id = some rows' →
        entry.job.node_id ∈ rows'.nodes.keys → rows'.Past entry.job) →
      ∃ entry' : StreamEntry, s'.stream[m]? = some entry' ∧
        ∀ rows', s'.executions entry'.job.execution_id = some rows' →
          entry'.job.node_id ∈ rows'.nodes.keys → rows'.Past entry'.job := by
    intro entry hi hpast
    obtain ⟨entry', hi', hjob, -⟩ := heff.stream_stays hi
    exact ⟨entry', hi', by rwa [hjob]⟩
  rcases heff.done hdone with hold | ⟨entry, hi, hgone⟩ |
    ⟨e, n, k, rows, hheld, hrows, hcase⟩ | ⟨job, cached, rows, hphase, hrows, hsame, hst⟩
  · obtain ⟨entry, hi, hpast⟩ := h.done t m hold
    refine lift hi fun rows' hrows' hkey => ?_
    obtain ⟨rows, hrows, hkeys, hstep, -, hle⟩ := h.entry_before ht heff hi hrows'
    exact h.past hkeep hrows hle (hstep _) (hpast rows hrows (hkeys ▸ hkey))
  · exact lift hi fun rows' hrows' hkey => .inl (hgone rows' hrows' hkey)
  · obtain ⟨entry, hi, rfl, rfl⟩ := h.held t m e n k hheld
    obtain ⟨h1, h2⟩ := h.entry m entry rows hi hrows
    refine lift hi fun rows' hrows' _ => ?_
    rcases hcase with ⟨hnr, hsame⟩ | ⟨r, hr, hr'⟩
    · rw [hsame, Option.some.injEq] at hrows'
      subst hrows'
      exact h.past_of_not_running hheld hi hrows h1 h2 hnr
    · rw [hr, Option.some.injEq] at hrows'
      subst hrows'
      refine hr'.imp id fun hatt => ?_
      omega
  · obtain ⟨hnt, entry, hi, rfl⟩ := h.recovered t m job cached hphase
    refine lift hi fun rows' hrows' hkey => ?_
    rw [hsame, hrows, Option.some.injEq] at hrows'
    subst hrows'
    exact absurd hkey (hst.resolve_right hnt)

theorem DeliveryInv.named_effect (h : DeliveryInv s) (heff : Effect env s a s')
    (hkeep : s.KeepsJobs a) {e : ℕ} {rows' : ExecutionRows}
    (hrows' : s'.executions e = some rows') {n : String} (hn : n ∈ rows'.nodes.keys)
    (hst : (rows'.nodes.row n).status = .QUEUED ∨ (rows'.nodes.row n).status = .RUNNING) :
    s'.Pending e n (rows'.nodes.row n).attempt ∨ s'.Owed e n (rows'.nodes.row n).attempt := by
  rcases heff.nodeStep hrows' with ⟨-, hfirst⟩ | ⟨rows, hrows, hkeys, hstep⟩
  · rcases hfirst n with ⟨-, h1, howed⟩ | ⟨hp, -⟩
    · rw [h1]
      exact .inr howed
    · rw [hp] at hst
      simp at hst
  · have hn' : n ∈ rows.nodes.keys := hkeys ▸ hn
    cases hstep n with
    | same hst' hatt =>
        rw [hatt]
        exact h.named_stays heff hkeep hrows hn' (hst' ▸ hst)
    | claim k hclaim hst' hatt =>
        rw [hatt]
        exact h.named_stays heff hkeep hrows hn' (h.claims hkeep hclaim hrows)
    | revert _ _ _ _ _ _ _ hold hst' hatt =>
        rw [hatt]
        exact h.named_stays heff hkeep hrows hn' (.inr hold)
    | skip hold hst' hatt =>
        rw [hst'] at hst
        simp at hst
    | queue hold hst' hatt howed => exact .inr howed
    | finish hold hst' hatt =>
        rcases hst' with hst' | hst' <;> rw [hst'] at hst <;> simp at hst

/-- **Every step that meets the condition keeps the invariant.** Each field has a lemma of
its own; the condition enters in three of them. -/
theorem DeliveryInv.effect (h : DeliveryInv s) (ht : s.Typed env) (heff : Effect env s a s')
    (hkeep : s.KeepsJobs a) : DeliveryInv s' where
  row := fun _ _ n hrows' => h.row_effect heff n hrows'
  entry := fun _ _ _ hi hrows' => h.entry_effect ht heff hi hrows'
  owed := fun _ _ hjob _ hrows' => h.owed_effect ht heff hjob hrows'
  held := fun _ _ _ _ _ hheld => h.held_effect heff hheld
  recovered := fun _ _ _ _ hphase => h.recovered_effect heff hphase
  waiting := fun _ _ _ _ _ _ _ hheld hi hrows' hq =>
    h.waiting_effect ht heff hkeep hheld hi hrows' hq
  done := fun _ _ hdone => h.done_effect ht heff hkeep hdone
  named := fun _ _ hrows' _ hn hst => h.named_effect heff hkeep hrows' hn hst

end Inv

theorem deliveryInv_of_kept {env : Env} {s : Sys}
    (hrun : Reaches (Sys.step env) Sys.KeepsJobs Sys.init s) : DeliveryInv s := by
  refine Sys.invariant_of_effect DeliveryInv hrun typed_init ?_ ?_
    fun u a v ht hinv hkeep heff => hinv.effect ht heff hkeep
  · constructor <;> simp [Sys.init, Phase.owes, Phase.held, Phase.done]
  · intro u clock h
    exact ⟨h.row, h.entry, h.owed, h.held, h.recovered, h.waiting, h.done, h.named⟩

/-- **No lost job**, in every run whose steps all keep the message: a task dies only while
it owes nothing, recovery reverts a node only when no live task holds it through an entry
of its current attempt, and a recovered job claims a node only while it is not terminal.
Of the fields of [`DeliveryInv`] the claim is `named`; the others are there because it
cannot be carried along by itself: an entry may only be acked if the node it names has
gone on ([`DeliveryInv.named_stays`]). -/
theorem no_lost_job_of_kept (env : Env) (s : Sys)
    (hrun : Reaches (Sys.step env) Sys.KeepsJobs Sys.init s) : s.NoLostJob := by
  intro e rows hrows n hn hst
  exact ⟨_, (deliveryInv_of_kept hrun).named e rows hrows n hn hst⟩

/-- `KeepsJobs`, looked at for the first `bound` tasks. -/
def Sys.keeps_jobs (bound : ℕ) (s : Sys) : Action → Bool
  | .crash t => (s.tasks t).phase.owes.isEmpty
  | .publish_error t => (s.tasks t).phase.owes.isEmpty
  | .recover _ m =>
    match s.stream[m]? with
    | some entry =>
      match s.executions entry.job.execution_id with
      | some rows => (List.range bound).all fun t =>
        match (s.tasks t).phase.held with
        | some (m', e, n, _) => decide (e = entry.job.execution_id → n = entry.job.node_id →
            ∀ entry' ∈ s.stream[m']?,
              entry'.job.attempt ≠ (rows.nodes.row entry.job.node_id).attempt)
        | none => true
      | none => true
    | none => true
  | .reclaim t =>
    match (s.tasks t).phase with
    | .recovered _ job _ =>
      match s.executions job.execution_id with
      | some rows => decide ((rows.nodes.row job.node_id).status ∉ TERMINAL_NODE_STATUSES)
      | none => true
    | _ => true
  | _ => true

theorem Sys.keepsJobs_of_check {bound : ℕ} {s : Sys} {a : Action} (hidle : s.IdleFrom bound)
    (h : s.keeps_jobs bound a = true) : s.KeepsJobs a := by
  cases a with
  | crash t => exact List.isEmpty_iff.mp h
  | publish_error t => exact List.isEmpty_iff.mp h
  | recover t₀ m =>
      intro entry rows hentry hrows _ t m' k entry' hheld hentry'
      simp only [Sys.keeps_jobs, hentry, hrows, List.all_eq_true, List.mem_range] at h
      by_cases ht : t < bound
      · have := h t ht
        simp only [hheld, decide_eq_true_eq] at this
        exact this trivial trivial entry' hentry'
      · rw [hidle t (not_lt.mp ht)] at hheld
        cases hheld
  | reclaim t =>
      intro m job cached rows hphase _ hrows
      simpa only [Sys.keeps_jobs, hphase, hrows, decide_eq_true_eq] using h
  | _ => trivial

/-- A worker dies with its claim, and its message is recovered. -/
theorem no_lost_job_of_kept_solo :
    ∃ s : Sys, s.node_status 0 "a" = some .RUNNING ∧ s.NoLostJob := by
  have hst : (run (restrict (Sys.step (env_of solo)) fun s a => a.below 3 && s.keeps_jobs 3 a)
      Sys.init [.start 0 0 none 0, .publish 0, .claim 1 0, .crash 1, .recover 2 0, .flush 2,
        .reclaim 2]).bind (fun s => s.node_status 0 "a") = some .RUNNING := by decide +kernel
  obtain ⟨s, hs, hst⟩ := Option.bind_eq_some_iff.mp hst
  exact ⟨s, hst, no_lost_job_of_kept (env_of solo) s
    (reaches_of_checked_run (fun _ _ => Sys.keepsJobs_of_check) hs)⟩

/-- A process that crashes between its commit and its first publish leaves a
QUEUED node that no message names. -/
theorem not_no_lost_job : ¬ ∀ (env : Env) (s : Sys),
    Reaches (Sys.step env) (fun _ a => a.fine = true) Sys.init s → s.NoLostJob := by
  intro h
  have hst : (run (restrict (Sys.step (env_of solo)) fun _ a => a.below 1 && a.fine) Sys.init
      [.start 0 0 none 0, .crash 0]).map
        (fun s => (s.node_status 0 "a", s.stream.length, (s.tasks 0).phase.owes))
      = some (some .QUEUED, 0, []) := by decide +kernel
  obtain ⟨s, hs, hst⟩ := Option.map_eq_some_iff.mp hst
  simp only [Prod.mk.injEq] at hst
  obtain ⟨rows, hrows, hkey, hq⟩ := Sys.node_status_eq_some hst.1
  obtain ⟨k, ⟨i, entry, hi, -⟩ | ⟨t, job, hjob, -⟩⟩ :=
    h (env_of solo) s (reaches_of_checked_run (fun _ _ _ h => h) hs) 0 rows hrows "a" hkey (.inl hq)
  · rw [List.length_eq_zero_iff.mp hst.2.1] at hi
    simp at hi
  · rcases Nat.eq_zero_or_pos t with rfl | ht
    · rw [hst.2.2] at hjob
      cases hjob
    · rw [idleFrom_of_run hs t ht] at hjob
      cases hjob

end EventFlow
