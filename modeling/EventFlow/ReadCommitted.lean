/-
Reads and commits of the workers and of the recovery loops, one at a time.

`System.lean` takes a claim, and a recovery's revert, as one step. Here each
`SELECT` and each `COMMIT` is a step of its own, as under READ COMMITTED with
`expire_on_commit=False`: a session decides on the instance it has read and
writes the columns it has changed, whatever the row has become by then. Only
the completion takes a lock, the `FOR UPDATE` on the execution row, and only it
re-reads the node rows (`populate_existing`) before it decides. `SELECT`s that
return an instance the session already holds change nothing and have no step:
the one inside `transition_node_status`, and `session.get` in the `process_job`
that follows a recovery. The rows read for the context only reach the executor,
whose result is arbitrary.

A claim or a revert decided on a stale instance overwrites a node that has
succeeded meanwhile ([`not_settled_absorbing`]). It is the only way:
[`settled_absorbing_of_kept`] needs nothing of completions, because the lock
keeps their snapshot current in what matters. The invariant [`StoreInv`] says
so: a row that is settled now was settled in the snapshot of whoever holds the
lock.
-/
import EventFlow.Safety

set_option autoImplicit false

namespace EventFlow

open Transition

/-! ## Sessions and statements -/

/-- What a session has read and how far its code has come. -/
inductive Conn where
  | idle
  /-- `process_job` has its node instance. -/
  | read (job : Job) (cached : NodeExecution)
  /-- `process_recovered_job` has its node instance. -/
  | recovering (msg : ℕ) (job : Job) (cached : NodeExecution)
  /-- The claim is committed. -/
  | claimed (job : Job)
  /-- The execution is loaded and the executor runs. -/
  | executing (job : Job) (execution : Execution)
  /-- The execution row is locked. -/
  | locked (job : Job) (execution : Execution) (result : ExecutorResult)
  /-- The node rows have been re-read under the lock. -/
  | refreshed (job : Job) (execution : Execution) (nodes : Table String NodeExecution)
      (result : ExecutorResult)
  /-- The completion is committed; the message ids are still to be recorded. -/
  | publishing (job : Job) (pubs : List String)

/-- The execution whose row a session has locked. -/
def Conn.locks : Conn → Option ℕ
  | .locked job _ _ => some job.execution_id
  | .refreshed job _ _ _ => some job.execution_id
  | _ => none

/-- The committed rows, the row locks and the sessions. -/
structure Store where
  db : ℕ → Option ExecutionRows
  lock : ℕ → Option ℕ
  conns : ℕ → Conn

/-- The reads and the commits. `now` is what `datetime.now` returns. -/
inductive Statement where
  /-- `session.get(NodeExecution)` of `process_job`. -/
  | get (t : ℕ) (job : Job)
  /-- `session.get(NodeExecution)` of `process_recovered_job`. -/
  | recover_get (t msg : ℕ) (job : Job)
  /-- The commit of `process_recovered_job`. -/
  | recover (t now : ℕ)
  /-- The first commit of `process_job`. -/
  | claim (t now : ℕ)
  /-- `session.get(Execution)`. -/
  | load (t : ℕ)
  /-- The executor has returned; `SELECT ... FOR UPDATE` of the execution. -/
  | lock (t : ℕ) (result : ExecutorResult)
  /-- `SELECT` of the node rows with `populate_existing`. -/
  | refresh (t : ℕ)
  /-- The second commit of `process_job`. -/
  | complete (t now : ℕ)
  /-- The third: the message ids of the published nodes. -/
  | finish (t : ℕ) (ids : List ℕ)
  /-- The session is gone and its transaction rolled back. -/
  | crash (t : ℕ)

namespace Store

/-- Session `t` goes to `conn`. -/
def goto (s : Store) (t : ℕ) (conn : Conn) : Store :=
  { s with conns := Function.update s.conns t conn }

/-- Session `t` ends its transaction: its locks are released. -/
def release (s : Store) (t : ℕ) : Store :=
  { s with lock := fun e => if s.lock e = some t then none else s.lock e }

/-- Session `t` ends. -/
def close (s : Store) (t : ℕ) : Store := (s.release t).goto t .idle

/-- `rows` become the committed rows of execution `e`. -/
def put (s : Store) (e : ℕ) (rows : ExecutionRows) : Store :=
  { s with db := Function.update s.db e (some rows) }

/-- The row a job names. -/
def row (s : Store) (job : Job) : Option NodeExecution :=
  (s.db job.execution_id).bind fun rows => rows.nodes.get? job.node_id

/-- A session that holds `cached` as its instance of the node of `job`. -/
def holding (rows : ExecutionRows) (job : Job) (cached : NodeExecution) (now : ℕ) : Session :=
  { rows.load job.execution_id now with nodes := rows.nodes.set job.node_id cached }

def recover (s : Store) (t now : ℕ) : Option Store :=
  match s.conns t with
  | .recovering msg job cached =>
    match s.db job.execution_id with
    | none => some (s.close t)
    | some rows =>
      let loaded := holding rows job cached now
      match process_recovered_job loaded job.node_id msg with
      | .missing => some (s.close t)
      | .terminal session =>
        some ((s.put job.execution_id (rows.commit loaded session)).close t)
      | .proceed session =>
        some ((s.put job.execution_id (rows.commit loaded session)).goto t
          (.read job (session.nodes.row job.node_id)))
  | _ => none

def claim (s : Store) (t now : ℕ) : Option Store :=
  match s.conns t with
  | .read job cached =>
    match s.db job.execution_id with
    | none => some (s.close t)
    | some rows =>
      let loaded := holding rows job cached now
      match process_job_claim loaded job.node_id with
      | .returned => some (s.close t)
      | .raised _ => some (s.close t)
      | .committed session =>
        some ((s.put job.execution_id (rows.commit loaded session)).goto t (.claimed job))
  | _ => none

def complete (env : Env) (s : Store) (t now : ℕ) : Option Store :=
  match s.conns t with
  | .refreshed job execution nodes result =>
    match s.db job.execution_id with
    | none => some (s.close t)
    | some rows =>
      match Sys.lookup env rows job.node_id with
      | none => some (s.close t)
      | some (definition, node_def) =>
        let loaded := { rows with nodes }.refresh execution job.execution_id now
        match process_job_complete loaded definition node_def job.node_id result with
        | .returned => some (s.close t)
        | .raised _ => some (s.close t)
        | .committed (session, pubs) =>
          some (((s.put job.execution_id (rows.commit loaded session)).release t).goto t
            (.publishing job pubs))
  | _ => none

/-- One read or one commit. -/
def step (env : Env) (s : Store) : Statement → Option Store
  | .get t job =>
    match s.conns t, s.row job with
    | .idle, none => some s
    | .idle, some node => some (s.goto t (.read job node))
    | _, _ => none
  | .recover_get t msg job =>
    match s.conns t, s.row job with
    | .idle, none => some s
    | .idle, some node => some (s.goto t (.recovering msg job node))
    | _, _ => none
  | .recover t now => s.recover t now
  | .claim t now => s.claim t now
  | .load t =>
    match s.conns t with
    | .claimed job =>
      match s.db job.execution_id with
      | none => some (s.close t)
      | some rows => some (s.goto t (.executing job rows.execution))
    | _ => none
  | .lock t result =>
    match s.conns t with
    | .executing job execution =>
      -- the statement waits while another transaction holds the row
      if s.lock job.execution_id = none then
        some { s.goto t (.locked job execution result) with
          lock := Function.update s.lock job.execution_id (some t) }
      else none
    | _ => none
  | .refresh t =>
    match s.conns t with
    | .locked job execution result =>
      match s.db job.execution_id with
      | none => some (s.close t)
      | some rows => some (s.goto t (.refreshed job execution rows.nodes result))
    | _ => none
  | .complete t now => s.complete env t now
  | .finish t ids =>
    match s.conns t with
    | .publishing job pubs =>
      match s.db job.execution_id with
      | none => some (s.close t)
      | some rows =>
        some ((s.put job.execution_id
          { rows with nodes := Sys.set_message_ids rows.nodes (pubs.zip ids) }).close t)
    | _ => none
  | .crash t => some (s.close t)

end Store

/-! ## What a step does to the rows -/

/-- SUCCEEDED or SKIPPED. -/
def NodeExecutionStatus.settled : NodeExecutionStatus → Bool
  | .SUCCEEDED => true
  | .SKIPPED => true
  | _ => false

/-- The node of a job is settled. -/
def Store.settled (s : Store) (job : Job) : Bool :=
  match s.db job.execution_id with
  | some rows => (rows.nodes.row job.node_id).status.settled
  | none => false

/-- A session that is about to commit a claim, or a revert, does not find that
the node has been settled since it read it. -/
def Store.keeps_settled (s : Store) : Statement → Bool
  | .claim t _ =>
    match s.conns t with
    | .read job cached => cached.status != .QUEUED || !s.settled job
    | _ => true
  | .recover t _ =>
    match s.conns t with
    | .recovering _ job cached => cached.status != .RUNNING || !s.settled job
    | _ => true
  | _ => true

/-- What a step makes of the rows of execution `e`. -/
inductive Store.Write (env : Env) (s : Store) (a : Statement) (e : ℕ) (rows : ExecutionRows) :
    ExecutionRows → Prop
  /-- No node row is written. -/
  | quiet (logs : List ExecutionLog) : Write env s a e rows { rows with logs }
  /-- A claim or a revert. -/
  | set (n : String) (node : NodeExecution) (logs : List ExecutionLog)
      (hst : node.status.settled = false)
      (hkeep : s.keeps_settled a = true → (rows.nodes.row n).status.settled = false) :
      Write env s a e rows { rows with nodes := rows.nodes.set n node, logs }
  /-- Message ids. -/
  | ids (sent : List (String × ℕ)) :
      Write env s a e rows { rows with nodes := Sys.set_message_ids rows.nodes sent }
  /-- A completion. -/
  | complete {t now : ℕ} {job : Job} {execution : Execution}
      {nodes : Table String NodeExecution} {result : ExecutorResult} {d : WorkflowDefinition}
      {node_def : Node} {session : Session} {pubs : List String} (ha : a = .complete t now)
      (hconn : s.conns t = .refreshed job execution nodes result)
      (he : job.execution_id = e) (hlookup : Sys.lookup env rows job.node_id = some (d, node_def))
      (hdone : process_job_complete ({ rows with nodes }.refresh execution e now) d node_def
        job.node_id result = .committed (session, pubs)) :
      Write env s a e rows (rows.commit ({ rows with nodes }.refresh execution e now) session)

section Write

variable {env : Env} {s s' : Store} {a : Statement} {e : ℕ} {rows rows' : ExecutionRows}

/-- Definitions are found as before. -/
theorem Store.Write.frame (h : Store.Write env s a e rows rows') :
    rows'.execution.workflow_version_id = rows.execution.workflow_version_id ∧
      rows'.nodes.keys = rows.nodes.keys := by
  cases h <;> exact ⟨rfl, rfl⟩

/-- Putting the rows of one execution leaves the others alone. -/
theorem Store.put_cases {e₀ : ℕ} {rows₀ new : ExecutionRows} {u : Store}
    (hdb : u.db = Function.update s.db e₀ (some new)) (hrows₀ : s.db e₀ = some rows₀)
    (hwrite : Store.Write env s a e₀ rows₀ new) (h : u.db e = some rows') :
    ∃ rows, s.db e = some rows ∧ Store.Write env s a e rows rows' := by
  by_cases he : e = e₀
  · subst he
    rw [hdb, Function.update_self, Option.some.injEq] at h
    exact ⟨rows₀, hrows₀, h ▸ hwrite⟩
  · rw [hdb, Function.update_of_ne he] at h
    exact ⟨rows', h, .quiet rows'.logs⟩

/-- A claim that commits writes the row of its own node, from the instance it has read;
`keeps_settled` is about this instance and the row, so the guard of [`Store.Write.set`]
can be read off the step. A claim that is refused rolls back. -/
theorem Store.claim_write {t now : ℕ} (h : s.claim t now = some s')
    (hrows' : s'.db e = some rows') :
    ∃ rows, s.db e = some rows ∧ Store.Write env s (.claim t now) e rows rows' := by
  unfold Store.claim at h
  split at h
  · rename_i job cached hconn
    split at h
    · cases h
      exact ⟨rows', hrows', .quiet rows'.logs⟩
    · rename_i rows hrows
      dsimp only at h
      split at h
      · cases h
        exact ⟨rows', hrows', .quiet rows'.logs⟩
      · cases h
        exact ⟨rows', hrows', .quiet rows'.logs⟩
      · rename_i session hclaim
        cases h
        obtain ⟨hkey, hst, hsame, hnodes⟩ := process_job_claim_committed hclaim
        have hcached : cached.status = .QUEUED := by
          rwa [Store.holding, Table.row_set_self] at hst
        have hnodes : session.nodes = rows.nodes.set job.node_id (cached.enter .RUNNING now) := by
          rw [hnodes, Store.holding, Table.row_set_self, Table.set_set]
          rfl
        refine Store.put_cases rfl hrows ?_ hrows'
        rw [Store.holding, commit_of_cached hsame.execution hsame.new_dead_letter_jobs hnodes]
        refine .set _ _ _ ?_ fun hkeep => ?_
        · -- the instance says QUEUED, so the column is written
          rw [NodeExecution.flush, NodeExecution.enter_status, hcached]
          rfl
        · simpa [Store.keeps_settled, hconn, hcached, Store.settled, hrows] using hkeep
  · cases h

/-- A recovery that commits writes the row of its node back to QUEUED and adds one log. It
tests the status on the instance it has read, as a claim does, and the same guard says
when this instance is outdated. -/
theorem Store.recover_write {t now : ℕ} (h : s.recover t now = some s')
    (hrows' : s'.db e = some rows') :
    ∃ rows, s.db e = some rows ∧ Store.Write env s (.recover t now) e rows rows' := by
  unfold Store.recover at h
  split at h
  · rename_i msg job cached hconn
    split at h
    · cases h
      exact ⟨rows', hrows', .quiet rows'.logs⟩
    · rename_i rows hrows
      dsimp only at h
      split at h
      · cases h
        exact ⟨rows', hrows', .quiet rows'.logs⟩
      · rename_i session hterm
        cases h
        obtain ⟨-, -, rfl⟩ := process_recovered_job_terminal hterm
        refine Store.put_cases rfl hrows ?_ hrows'
        rw [Store.holding, commit_of_cached rfl rfl rfl, NodeExecution.flush_untouched,
          Table.set_row]
        exact .quiet _
      · rename_i session hproceed
        cases h
        obtain ⟨hkey, hst, hsame, hnodes⟩ := process_recovered_job_proceed hproceed
        have hnodes : session.nodes = rows.nodes.set job.node_id cached.revert := by
          rw [hnodes, Store.holding, Table.row_set_self, Table.set_set]
        refine Store.put_cases rfl hrows ?_ hrows'
        rw [Store.holding, commit_of_cached hsame.execution hsame.new_dead_letter_jobs hnodes]
        by_cases hrun : cached.status = .RUNNING
        · refine .set _ _ _ ?_ fun hkeep => ?_
          · rw [NodeExecution.flush, NodeExecution.revert, if_pos hrun, hrun]
            rfl
          · simpa [Store.keeps_settled, hconn, hrun, Store.settled, hrows] using hkeep
        · rw [NodeExecution.revert_of_ne hrun, NodeExecution.flush_untouched, Table.set_row]
          exact .quiet _
  · cases h

theorem Store.complete_write {t now : ℕ} (h : s.complete env t now = some s')
    (hrows' : s'.db e = some rows') :
    ∃ rows, s.db e = some rows ∧ Store.Write env s (.complete t now) e rows rows' := by
  unfold Store.complete at h
  split at h
  · rename_i job execution nodes result hconn
    split at h
    · cases h
      exact ⟨rows', hrows', .quiet rows'.logs⟩
    · rename_i rows hrows
      split at h
      · cases h
        exact ⟨rows', hrows', .quiet rows'.logs⟩
      · rename_i d node_def hlookup
        dsimp only at h
        split at h
        · cases h
          exact ⟨rows', hrows', .quiet rows'.logs⟩
        · cases h
          exact ⟨rows', hrows', .quiet rows'.logs⟩
        · rename_i session pubs hdone
          cases h
          exact Store.put_cases rfl hrows (.complete rfl hconn rfl hlookup hdone) hrows'
  · cases h

/-- Every stored execution was stored before, and its rows are as `Write` says. Each step
writes to one execution at most, so for every other the rows are the same; a start is no
step of this store, and so no rows come into being. -/
theorem Store.write_of_step (h : s.step env a = some s') (hrows' : s'.db e = some rows') :
    ∃ rows, s.db e = some rows ∧ Store.Write env s a e rows rows' := by
  have hsame : s'.db = s.db → ∃ rows, s.db e = some rows ∧ Store.Write env s a e rows rows' :=
    fun heq => ⟨rows', heq ▸ hrows', .quiet rows'.logs⟩
  cases a with
  | claim t now => exact Store.claim_write h hrows'
  | recover t now => exact Store.recover_write h hrows'
  | complete t now => exact Store.complete_write h hrows'
  | finish t ids =>
      simp only [Store.step] at h
      split at h
      · split at h
        · cases h
          exact hsame rfl
        · rename_i rows hrows
          cases h
          exact Store.put_cases rfl hrows (.ids _) hrows'
      · cases h
  | get t job =>
      simp only [Store.step] at h
      split at h <;> cases h <;> exact hsame rfl
  | recover_get t msg job =>
      simp only [Store.step] at h
      split at h <;> cases h <;> exact hsame rfl
  | load t =>
      simp only [Store.step] at h
      split at h
      · split at h <;> cases h <;> exact hsame rfl
      · cases h
  | lock t result =>
      simp only [Store.step] at h
      split at h
      · split at h <;> cases h
        exact hsame rfl
      · cases h
  | refresh t =>
      simp only [Store.step] at h
      split at h
      · split at h <;> cases h <;> exact hsame rfl
      · cases h
  | crash t =>
      cases h
      exact hsame rfl

end Write

/-! ## Locks and snapshots -/

section Conns

variable {env : Env} {s s' : Store} {a : Statement} {t : ℕ}

/-- How a session can come to where it is: it has not moved, and it keeps what
it has locked; it holds no lock; it has just locked the row of its execution; or
it has just read the node rows under that lock. -/
inductive Store.Moved (s s' : Store) (t : ℕ) : Prop
  | stayed (hconn : s'.conns t = s.conns t)
      (hlock : ∀ e, s.lock e = some t → s'.lock e = some t)
  | free (hconn : (s'.conns t).locks = none)
  | locked {job : Job} {execution : Execution} {result : ExecutorResult}
      (hconn : s'.conns t = .locked job execution result)
      (hlock : s'.lock job.execution_id = some t)
  | refreshed {job : Job} {execution : Execution} {result : ExecutorResult}
      {rows : ExecutionRows} (hbefore : s.conns t = .locked job execution result)
      (hrows : s'.db job.execution_id = some rows)
      (hconn : s'.conns t = .refreshed job execution rows.nodes result)
      (hlock : s'.lock = s.lock)

/-- A session `t₀` that moves to a place without a lock and releases at most its
own locks. -/
theorem Store.moved_of_goto {t₀ : ℕ} {conn : Conn} (hfree : conn.locks = none)
    (hconns : s'.conns = Function.update s.conns t₀ conn)
    (hlock : s'.lock = s.lock ∨ s'.lock = (s.release t₀).lock) : Store.Moved s s' t := by
  by_cases ht : t = t₀
  · subst ht
    exact .free (by rw [hconns, Function.update_self, hfree])
  · refine .stayed (by rw [hconns, Function.update_of_ne ht]) fun e he => ?_
    rcases hlock with hlock | hlock
    · rw [hlock, he]
    · simp only [hlock, Store.release, he, Option.some.injEq, if_neg ht]

/-- A session that stays where it is when nothing happens. -/
theorem Store.moved_refl : Store.Moved s s t := .stayed rfl fun _ h => h

/-- How a step leaves the connection of task `t`: another task has moved and it is where
it was; or it has moved and holds no lock now; or it has just taken the lock; or it has
just read the node rows under that lock, and then the snapshot is what is stored. -/
theorem Store.moved_of_step (h : s.step env a = some s') : Store.Moved s s' t := by
  cases a with
  | get t₀ job =>
      simp only [Store.step] at h
      split at h <;> cases h
      · exact Store.moved_refl
      · exact Store.moved_of_goto rfl rfl (.inl rfl)
  | recover_get t₀ msg job =>
      simp only [Store.step] at h
      split at h <;> cases h
      · exact Store.moved_refl
      · exact Store.moved_of_goto rfl rfl (.inl rfl)
  | recover t₀ now =>
      simp only [Store.step, Store.recover] at h
      split at h
      · split at h
        · cases h
          exact Store.moved_of_goto rfl rfl (.inr rfl)
        · split at h <;> cases h
          · exact Store.moved_of_goto rfl rfl (.inr rfl)
          · exact Store.moved_of_goto rfl rfl (.inr rfl)
          · exact Store.moved_of_goto rfl rfl (.inl rfl)
      · cases h
  | claim t₀ now =>
      simp only [Store.step, Store.claim] at h
      split at h
      · split at h
        · cases h
          exact Store.moved_of_goto rfl rfl (.inr rfl)
        · split at h <;> cases h
          · exact Store.moved_of_goto rfl rfl (.inr rfl)
          · exact Store.moved_of_goto rfl rfl (.inr rfl)
          · exact Store.moved_of_goto rfl rfl (.inl rfl)
      · cases h
  | load t₀ =>
      simp only [Store.step] at h
      split at h
      · split at h <;> cases h
        · exact Store.moved_of_goto rfl rfl (.inr rfl)
        · exact Store.moved_of_goto rfl rfl (.inl rfl)
      · cases h
  | lock t₀ result =>
      simp only [Store.step] at h
      split at h
      · rename_i job execution hconn
        split at h
        · rename_i hnone
          cases h
          by_cases ht : t = t₀
          · subst ht
            exact .locked (Function.update_self ..) (Function.update_self ..)
          · refine .stayed (Function.update_of_ne ht ..) fun e he => ?_
            -- the row it locks was free, so it is not one that `t` holds
            have hne : e ≠ job.execution_id := by
              rintro rfl
              rw [hnone] at he
              cases he
            exact (Function.update_of_ne hne ..).trans he
        · cases h
      · cases h
  | refresh t₀ =>
      simp only [Store.step] at h
      split at h
      · rename_i job execution result hconn
        split at h
        · cases h
          exact Store.moved_of_goto rfl rfl (.inr rfl)
        · rename_i rows hrows
          cases h
          by_cases ht : t = t₀
          · subst ht
            exact .refreshed hconn hrows (Function.update_self ..) rfl
          · exact .stayed (Function.update_of_ne ht ..) fun e he => he
      · cases h
  | complete t₀ now =>
      simp only [Store.step, Store.complete] at h
      split at h
      · split at h
        · cases h
          exact Store.moved_of_goto rfl rfl (.inr rfl)
        · split at h
          · cases h
            exact Store.moved_of_goto rfl rfl (.inr rfl)
          · split at h <;> cases h <;> exact Store.moved_of_goto rfl rfl (.inr rfl)
      · cases h
  | finish t₀ ids =>
      simp only [Store.step] at h
      split at h
      · split at h <;> cases h <;> exact Store.moved_of_goto rfl rfl (.inr rfl)
      · cases h
  | crash t₀ =>
      cases h
      exact Store.moved_of_goto rfl rfl (.inr rfl)

/-- A completion ends with no lock held, whatever comes of it. -/
theorem Store.free_of_complete {now : ℕ} (h : s.step env (.complete t now) = some s') :
    (s'.conns t).locks = none := by
  simp only [Store.step, Store.complete] at h
  split at h
  · split at h
    · cases h
      simp [Store.close, Store.goto, Conn.locks]
    · split at h
      · cases h
        simp [Store.close, Store.goto, Conn.locks]
      · split at h <;> cases h <;> simp [Store.close, Store.goto, Conn.locks]
  · cases h

end Conns

/-! ## The invariant -/

structure StoreInv (env : Env) (s : Store) : Prop where
  rows : ∀ e rows, s.db e = some rows → ∃ d, rows.Of env d
  lock : ∀ t e, (s.conns t).locks = some e → s.lock e = some t
  /-- What is settled by now was settled when the snapshot was taken. -/
  snapshot : ∀ t job execution nodes result rows,
    s.conns t = .refreshed job execution nodes result → s.db job.execution_id = some rows →
    nodes.keys = rows.nodes.keys ∧
      ∀ n, (rows.nodes.row n).status.settled = true → (nodes.row n).status.settled = true

theorem NodeExecutionStatus.settled_iff {st : NodeExecutionStatus} :
    st.settled = true ↔ st = .SUCCEEDED ∨ st = .SKIPPED := by
  cases st <;> simp [NodeExecutionStatus.settled]

section Inv

variable {env : Env} {s s' : Store} {a : Statement} {e : ℕ} {rows rows' : ExecutionRows}

/-- The completion of a session with a settled snapshot row leaves the row. -/
theorem StoreInv.completed_row {job : Job} {execution : Execution}
    {nodes : Table String NodeExecution} {result : ExecutorResult} {d : WorkflowDefinition}
    {node_def : Node} {session : Session} {pubs : List String} {now : ℕ} {n : String}
    (h : StoreInv env s) (hrows : s.db e = some rows) (hkeys : nodes.keys = rows.nodes.keys)
    (hlookup : Sys.lookup env rows job.node_id = some (d, node_def))
    (hdone : process_job_complete ({ rows with nodes }.refresh execution e now) d node_def
      job.node_id result = .committed (session, pubs))
    (hst : (nodes.row n).status.settled = true) :
    ((rows.commit ({ rows with nodes }.refresh execution e now) session).nodes.row n)
      = rows.nodes.row n := by
  obtain ⟨d', hd⟩ := h.rows e rows hrows
  obtain ⟨rfl, -⟩ := hd.lookup hlookup
  obtain ⟨-, -, hcompleted⟩ := process_job_complete_committed (by
    intro c _ p hp
    rw [hkeys, hd.2.2]
    exact hd.wellFormed.parent_mem hp) hdone
  have hsame := hcompleted.settled_row (NodeExecutionStatus.settled_iff.mp hst)
  simp only [ExecutionRows.commit, ExecutionRows.refresh, hsame, NodeExecution.flush_untouched]

/-- A row that is settled after a step was settled before, unless a completion
wrote it. -/
theorem Store.Write.settled_before {n : String} (h : Store.Write env s a e rows rows')
    (hst : (rows'.nodes.row n).status.settled = true) :
    (rows.nodes.row n).status.settled = true ∨
      ∃ t now job execution nodes result, a = .complete t now ∧
        s.conns t = .refreshed job execution nodes result ∧ job.execution_id = e := by
  cases h with
  | quiet logs => exact .inl hst
  | set m node logs hnode hkeep =>
      by_cases hn : n = m
      · subst hn
        simp only [Table.row_set_self, hnode] at hst
        cases hst
      · simp only [Table.row_set_of_ne _ _ hn] at hst
        exact .inl hst
  | ids sent =>
      obtain ⟨id, hid⟩ := row_set_message_ids rows.nodes sent n
      rw [hid] at hst
      exact .inl hst
  | complete ha hconn he hlookup hdone => exact .inr ⟨_, _, _, _, _, _, ha, hconn, he⟩

/-- The snapshot of the session that holds the lock stays good although others write
beside it: they can be claims and reverts, which never make a row settled, guard or no
guard. Only a completion settles rows, and the one that completes under a lock is the
session that holds it and gives it up. So what is settled after the step was settled
before it ([`Store.Write.settled_before`]), and the snapshot knows it already. -/
theorem StoreInv.step (h : StoreInv env s) (hs : s.step env a = some s') : StoreInv env s' := by
  refine ⟨fun e rows' hrows' => ?_, fun t e hlock => ?_, ?_⟩
  · obtain ⟨rows, hrows, hwrite⟩ := Store.write_of_step hs hrows'
    obtain ⟨d, hd⟩ := h.rows e rows hrows
    exact ⟨d, hd.congr hwrite.frame.1 hwrite.frame.2⟩
  · cases Store.moved_of_step (t := t) hs with
    | stayed hconn hstays => exact hstays e (h.lock t e (hconn ▸ hlock))
    | free hconn =>
        rw [hconn] at hlock
        cases hlock
    | locked hconn hheld =>
        rw [hconn] at hlock
        cases hlock
        exact hheld
    | refreshed hbefore hrows hconn hsame =>
        rw [hconn] at hlock
        cases hlock
        rw [hsame]
        exact h.lock t _ (by rw [hbefore]; rfl)
  · intro t job execution nodes result rows' hconn' hrows'
    cases Store.moved_of_step (t := t) hs with
    | stayed hconn hstays =>
        rw [hconn] at hconn'
        obtain ⟨rows, hrows, hwrite⟩ := Store.write_of_step hs hrows'
        obtain ⟨hkeys, hsettled⟩ := h.snapshot t job execution nodes result rows hconn' hrows
        refine ⟨hkeys.trans hwrite.frame.2.symm, fun n hn => ?_⟩
        rcases hwrite.settled_before hn with hn | ⟨t', now, job', _, _, _, rfl, hconn₀, he⟩
        · exact hsettled n hn
        · -- the lock admits one completion at a time, and this one is over
          have hl := h.lock t job.execution_id (by rw [hconn']; rfl)
          have hl' := h.lock t' job.execution_id (by rw [hconn₀, ← he]; rfl)
          rw [hl, Option.some.injEq] at hl'
          subst hl'
          have hfree := Store.free_of_complete hs
          rw [hconn, hconn'] at hfree
          cases hfree
    | free hfree =>
        rw [hconn'] at hfree
        cases hfree
    | locked hconn _ =>
        rw [hconn] at hconn'
        cases hconn'
    | refreshed hbefore hrows hconn hsame =>
        rw [hconn] at hconn'
        cases hconn'
        rw [hrows, Option.some.injEq] at hrows'
        subst hrows'
        exact ⟨rfl, fun n hn => hn⟩

/-- **What one commit does to a settled row.** A claim or a revert is excluded by the
guard, since it writes a row whose instance was not settled. A completion may go on with
an older snapshot of the row, but a row that is settled now was settled in the snapshot
too, and `_queue_downstream_nodes` writes rows that it has seen PENDING, the node itself
one that it has seen RUNNING. -/
theorem StoreInv.settled_step {n : String} (h : StoreInv env s)
    (hkeep : s.keeps_settled a = true) (hrows : s.db e = some rows)
    (hwrite : Store.Write env s a e rows rows')
    (hst : (rows.nodes.row n).status.settled = true) :
    ∃ id, rows'.nodes.row n = { rows.nodes.row n with redis_message_id := id } := by
  cases hwrite with
  | quiet logs => exact ⟨_, rfl⟩
  | set m node logs hnode hguard =>
      refine ⟨_, Table.row_set_of_ne _ _ ?_⟩
      rintro rfl
      rw [hguard hkeep] at hst
      cases hst
  | ids sent => exact row_set_message_ids rows.nodes sent n
  | complete ha hconn he hlookup hdone =>
      subst he
      obtain ⟨hkeys, hsettled⟩ := h.snapshot _ _ _ _ _ rows hconn hrows
      exact ⟨_, h.completed_row hrows hkeys hlookup hdone (hsettled n hst)⟩

end Inv

/-! ## Settled is absorbing -/

/-- Rows of accepted definitions in any status, and no session at work. -/
structure Store.Initial (env : Env) (s : Store) : Prop where
  rows : ∀ e rows, s.db e = some rows → ∃ d, rows.Of env d
  lock : ∀ e, s.lock e = none
  conns : ∀ t, s.conns t = .idle

theorem storeInv_of_initial {env : Env} {s : Store} (h : s.Initial env) : StoreInv env s := by
  refine ⟨h.rows, fun t e hlock => ?_, fun t _ _ _ _ _ hconn => ?_⟩
  · rw [h.conns t] at hlock
    cases hlock
  · rw [h.conns t] at hconn
    cases hconn

/-- A node that is SUCCEEDED or SKIPPED in `s` has the same status, attempt and
output in `s'`. -/
def Store.Absorbed (s s' : Store) : Prop :=
  ∀ e rows rows' n, s.db e = some rows → s'.db e = some rows' →
    (rows.nodes.row n).status = .SUCCEEDED ∨ (rows.nodes.row n).status = .SKIPPED →
    (rows'.nodes.row n).status = (rows.nodes.row n).status ∧
      (rows'.nodes.row n).attempt = (rows.nodes.row n).attempt ∧
      (rows'.nodes.row n).output_payload = (rows.nodes.row n).output_payload

/-- **Terminal success is absorbing**, for any number of sessions and any order of their
reads and commits, in every run in which no claim and no revert is committed over a node
that has been settled since it was read. Step by step, the row is the one it was when it
was settled, except for the id of its message, which a publish may still write
([`StoreInv.settled_step`]). The condition reads what is stored when the step is taken; it
does not ask anything of completions. -/
theorem settled_absorbing_of_kept (env : Env) (s₀ s s' : Store) (h₀ : s₀.Initial env)
    (hrun : Reaches (Store.step env) (fun u a => u.keeps_settled a = true) s₀ s)
    (hrun' : Reaches (Store.step env) (fun u a => u.keeps_settled a = true) s s') :
    s.Absorbed s' := by
  have hinv : StoreInv env s :=
    hrun.invariant (StoreInv env) (storeInv_of_initial h₀) fun _ _ _ h _ hs => h.step hs
  intro e rows rows' n hrows hrows' hst
  have hsettled := NodeExecutionStatus.settled_iff.mpr hst
  -- along the second run the row is the one of `s`, message id aside
  have hall : StoreInv env s' ∧ ∀ r, s'.db e = some r →
      ∃ id, r.nodes.row n = { rows.nodes.row n with redis_message_id := id } := by
    refine hrun'.invariant (fun u => StoreInv env u ∧ ∀ r, u.db e = some r →
      ∃ id, r.nodes.row n = { rows.nodes.row n with redis_message_id := id }) ?_ ?_
    · refine ⟨hinv, fun r hr => ?_⟩
      rw [hrows, Option.some.injEq] at hr
      exact ⟨_, by rw [hr]⟩
    · rintro u a v ⟨hu, hrow⟩ hkeep hs
      refine ⟨hu.step hs, fun r' hr' => ?_⟩
      obtain ⟨r, hr, hwrite⟩ := Store.write_of_step hs hr'
      obtain ⟨id, hid⟩ := hrow r hr
      obtain ⟨id', hid'⟩ := hu.settled_step hkeep hr hwrite (by rw [hid]; exact hsettled)
      exact ⟨id', by rw [hid', hid]⟩
  obtain ⟨id, hid⟩ := hall.2 rows' hrows'
  rw [hid]
  exact ⟨rfl, rfl, rfl⟩

/-- Execution 0 of `definition`, as `start_execution` has committed it. -/
def started_store (definition : WorkflowDefinition) : Store where
  db := fun e =>
    match start_execution (env_of definition) 0 none 0 0 0 with
    | .ok (session, _) => if e = 0 then some session.inserted else none
    | .error _ => none
  lock := fun _ => none
  conns := fun _ => .idle

theorem started_store_initial (definition : WorkflowDefinition) :
    (started_store definition).Initial (env_of definition) := by
  refine ⟨fun e rows hrows => ?_, fun _ => rfl, fun _ => rfl⟩
  simp only [started_store] at hrows
  split at hrows
  · rename_i session pubs hok
    split at hrows
    · cases hrows
      exact (inserted_of hok).1
    · cases hrows
  · cases hrows

/-- The status of a node, if it is stored. -/
def Store.node_status (s : Store) (e : ℕ) (n : String) : Option NodeExecutionStatus :=
  (s.db e).map fun rows => (rows.nodes.row n).status

/-- The message of node `a` of execution 0. -/
def job_a : Job := ⟨0, 0, "a", 1⟩

/-- Session 1 runs `a`; before it completes, session 2 has read the row. -/
def stale_run : List Statement :=
  [.get 1 job_a, .claim 1 1, .load 1, .recover_get 2 0 job_a, .lock 1 succeeded, .refresh 1,
    .complete 1 2]

/-- Recovery reverts a node that has succeeded since it was read. -/
theorem not_settled_absorbing : ¬ ∀ (env : Env) (s₀ s s' : Store), s₀.Initial env →
    Reaches (Store.step env) (fun _ _ => True) s₀ s →
    Reaches (Store.step env) (fun _ _ => True) s s' → s.Absorbed s' := by
  intro h
  have hst : (run (restrict (Store.step (env_of solo)) fun _ _ => true) (started_store solo)
      stale_run).bind (fun s =>
        (run (restrict (Store.step (env_of solo)) fun _ _ => true) s [.recover 2 3]).map fun s' =>
          (s.node_status 0 "a", s'.node_status 0 "a")) = some (some .SUCCEEDED, some .QUEUED) := by
    decide +kernel
  obtain ⟨s, hs, hst⟩ := Option.bind_eq_some_iff.mp hst
  obtain ⟨s', hs', hst⟩ := Option.map_eq_some_iff.mp hst
  rw [Prod.mk.injEq] at hst
  obtain ⟨rows, hrows, hst₁⟩ := Option.map_eq_some_iff.mp hst.1
  obtain ⟨rows', hrows', hst₂⟩ := Option.map_eq_some_iff.mp hst.2
  obtain ⟨hsame, -⟩ := h (env_of solo) (started_store solo) s s' (started_store_initial solo)
    ((reaches_of_run hs).mono fun _ _ _ => trivial) ((reaches_of_run hs').mono fun _ _ _ => trivial)
    0 rows rows' "a" hrows hrows' (.inl hst₁)
  rw [hst₁, hst₂] at hsame
  cases hsame

/-- A recovery that reads after the completion leaves the node alone. -/
theorem settled_absorbing_of_kept_solo :
    ∃ s s' : Store, s.node_status 0 "a" = some .SUCCEEDED ∧ (s'.db 0).isSome ∧ s.Absorbed s' := by
  have hst : (run (restrict (Store.step (env_of solo)) Store.keeps_settled) (started_store solo)
      [.get 1 job_a, .claim 1 1, .load 1, .lock 1 succeeded, .refresh 1, .complete 1 2]).bind
        (fun s => (run (restrict (Store.step (env_of solo)) Store.keeps_settled) s
          [.recover_get 2 0 job_a, .recover 2 3]).map fun s' =>
            (s.node_status 0 "a", (s'.db 0).isSome)) = some (some .SUCCEEDED, true) := by
    decide +kernel
  obtain ⟨s, hs, hst⟩ := Option.bind_eq_some_iff.mp hst
  obtain ⟨s', hs', hst⟩ := Option.map_eq_some_iff.mp hst
  rw [Prod.mk.injEq] at hst
  exact ⟨s, s', hst.1, hst.2, settled_absorbing_of_kept (env_of solo) (started_store solo) s s'
    (started_store_initial solo) (reaches_of_run hs) (reaches_of_run hs')⟩

end EventFlow
