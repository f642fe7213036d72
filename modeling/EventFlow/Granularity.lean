/-
The two granularities fit: what a worker or a recovery loop does in one step of
`System.lean` is a run of the reads and commits of `ReadCommitted.lean`.

A claim is a read and a commit, a completion takes the lock, re-reads and
commits, and a publish, a flush or an ack touches no row and is no statement at
all. The relation [`Refines`] says that both sides have the same rows, that no
lock is held between the steps, and that each session is where its task is
([`Conn.Follows`]).
-/
import EventFlow.ReadCommitted

set_option autoImplicit false

namespace EventFlow

open Transition

/-! ## The relation -/

/-- A session is where a task in this phase is. Between two commits a session
knows less than its task: neither the message nor the context. -/
inductive Conn.Follows : Phase → Conn → Prop
  | idle : Follows .idle .idle
  | returning (msg : Option ℕ) : Follows (.returning msg) .idle
  | recovered (msg : ℕ) (job : Job) (cached : NodeExecution) :
      Follows (.recovered msg job cached) (.read job cached)
  | claimed (msg : ℕ) (job : Job) (attempt : ℕ) :
      Follows (.claimed msg job attempt) (.claimed job)
  | invoked (msg : ℕ) (context : ExecutionContext) (execution : Execution) (job : Job)
      (he : job.execution_id = context.execution_id) (hn : job.node_id = context.node_id) :
      Follows (.invoked msg context execution) (.executing job execution)
  | publishing (msg : Option ℕ) (e : ℕ) (owed : List Job) (sent : List (String × ℕ)) (job : Job)
      (pubs : List String) (he : job.execution_id = e)
      (hpubs : pubs = sent.map Prod.fst ++ owed.map Job.node_id) :
      Follows (.publishing msg e owed sent) (.publishing job pubs)

structure Refines (s : Sys) (st : Store) : Prop where
  db : st.db = s.executions
  lock : ∀ e, st.lock e = none
  conns : ∀ t, Conn.Follows (s.tasks t).phase (st.conns t)

/-- The actions of workers and recovery loops, in the alphabet in which
`process_recovered_job` commits twice. -/
def Action.handles : Action → Bool
  | .start .. => false
  | .retry .. => false
  | .delete .. => false
  | .recover_claim .. => false
  | _ => true

/-- Some statements lead from `st` to a store that refines `s'`. -/
def Store.Leads (env : Env) (st : Store) (s' : Sys) : Prop :=
  ∃ st', Reaches (Store.step env) (fun _ _ => True) st st' ∧ Refines s' st'

section Moves

variable {env : Env} {s s' : Sys} {st st' : Store} {t : ℕ} {phase : Phase}
  {events : List Envelope} {conn : Conn}

/-- One more statement in front. -/
theorem Store.Leads.cons (a : Statement) (hs : st.step env a = some st')
    (h : st'.Leads env s') : st.Leads env s' := by
  obtain ⟨u, hu, hrefines⟩ := h
  exact ⟨u, (Reaches.single a trivial hs).trans hu, hrefines⟩

theorem Store.Leads.refl (h : Refines s' st) : st.Leads env s' := ⟨st, .refl, h⟩

theorem Store.goto_conns_self (st : Store) (t : ℕ) (conn : Conn) :
    (st.goto t conn).conns t = conn := Function.update_self ..

/-- A session that is there already. -/
theorem Store.goto_self (h : st.conns t = conn) : st.goto t conn = st := by
  simp only [Store.goto, ← h, Function.update_eq_self]

/-- A task moves and so does its session. -/
theorem Refines.goto (h : Refines s st) (hdb : st'.db = s'.executions)
    (hlock : ∀ e, st'.lock e = none) (hconns : st'.conns = Function.update st.conns t conn)
    (htasks : s'.tasks = Function.update s.tasks t ⟨phase, events⟩)
    (hfollows : Conn.Follows phase conn) : Refines s' st' := by
  refine ⟨hdb, hlock, fun t' => ?_⟩
  rw [hconns, htasks]
  by_cases ht : t' = t
  · rw [ht, Function.update_self, Function.update_self]
    exact hfollows
  · rw [Function.update_of_ne ht, Function.update_of_ne ht]
    exact h.conns t'

/-- A task moves without a statement. -/
theorem Refines.stay (h : Refines s st) (hdb : s'.executions = s.executions)
    (htasks : s'.tasks = Function.update s.tasks t ⟨phase, events⟩)
    (hfollows : Conn.Follows phase (st.conns t)) : Refines s' st :=
  h.goto (h.db.trans hdb.symm) h.lock (Function.update_eq_self t st.conns).symm htasks hfollows

/-- A session that is closed after it has moved around. -/
theorem Refines.close {u : Store} (h : Refines s st) (hdb : u.db = s'.executions)
    (hlock : ∀ e, u.lock e = none ∨ u.lock e = some t)
    (hconns : Function.update u.conns t .idle = Function.update st.conns t .idle)
    (htasks : s'.tasks = Function.update s.tasks t ⟨phase, events⟩)
    (hfollows : Conn.Follows phase .idle) : Refines s' (u.close t) := by
  refine h.goto hdb (fun e => ?_) hconns htasks hfollows
  rcases hlock e with he | he <;> simp [Store.close, Store.release, Store.goto, he]

end Moves

/-! ## One step -/

section Step

variable {env : Env} {s s' : Sys} {st : Store} {t m : ℕ}

/-- The instance just read is the row. -/
theorem Store.holding_row (rows : ExecutionRows) (job : Job) (now : ℕ) :
    Store.holding rows job (rows.nodes.row job.node_id) now = rows.load job.execution_id now := by
  simp only [Store.holding, ExecutionRows.load, Table.set_row]

/-- The claim of a session that holds its instance. The read took place in the same step,
so the instance is the stored row, and both sides call `process_job_claim` on it. -/
theorem Refines.claim_read {job : Job} {cached : NodeExecution} {rows : ExecutionRows}
    (h : Refines s st) (hrows : s.executions job.execution_id = some rows)
    (hs : (match process_job_claim (Store.holding rows job cached s.clock) job.node_id with
      | .returned => some (s.park t (.returning (some m)))
      | .raised _ => some (s.park t .idle)
      | .committed session =>
        some (s.commit t job.execution_id
          (rows.commit (Store.holding rows job cached s.clock) session) session.ws_events
          (.claimed m job (session.nodes.row job.node_id).attempt))) = some s') :
    (st.goto t (.read job cached)).Leads env s' := by
  have hdb : (st.goto t (.read job cached)).db job.execution_id = some rows := by
    rw [← hrows, ← h.db]
    rfl
  have hstep : ∀ st', (st.goto t (.read job cached)).claim t s.clock = some st' →
      st'.Leads env s' → (st.goto t (.read job cached)).Leads env s' :=
    fun st' hst' => .cons (.claim t s.clock) hst'
  simp only [Store.claim, Store.goto_conns_self, hdb] at hstep
  cases hclaim : process_job_claim (Store.holding rows job cached s.clock) job.node_id with
  | returned =>
      simp only [hclaim, Option.some.injEq] at hs hstep
      subst hs
      exact hstep _ rfl (.refl (h.close h.db (fun e => .inl (h.lock e))
        (Function.update_idem ..) rfl (.returning _)))
  | raised error =>
      simp only [hclaim, Option.some.injEq] at hs hstep
      subst hs
      exact hstep _ rfl (.refl (h.close h.db (fun e => .inl (h.lock e))
        (Function.update_idem ..) rfl .idle))
  | committed session =>
      simp only [hclaim, Option.some.injEq] at hs hstep
      subst hs
      refine hstep _ rfl (.refl (h.goto ?_ h.lock ?_ rfl (.claimed ..)))
      · simp only [Store.goto, Store.put, h.db, Sys.commit]
      · simp only [Store.goto, Store.put, Function.update_idem]

/-- `SELECT` of the row of a job. -/
theorem Refines.row (h : Refines s st) {job : Job} {rows : ExecutionRows}
    (hrows : s.executions job.execution_id = some rows) :
    st.row job = rows.nodes.get? job.node_id := by
  simp only [Store.row, h.db, hrows, Option.bind_some]

theorem Refines.claim (h : Refines s st) (hs : s.claim t m = some s') : st.Leads env s' := by
  unfold Sys.claim at hs
  split at hs
  · rename_i entry hidle hentry
    have hconn := h.conns t
    generalize hc : st.conns t = c at hconn
    rw [hidle] at hconn
    cases hconn
    split at hs
    · cases hs
      exact .refl (h.stay rfl rfl (hc ▸ .returning _))
    · rename_i rows hrows
      cases hget : rows.nodes.get? entry.job.node_id with
      | none =>
          simp only [process_job_claim, ExecutionRows.load, hget, Option.some.injEq] at hs
          subst hs
          exact .refl (h.stay rfl rfl (hc ▸ .returning _))
      | some node =>
          obtain ⟨hkey, rfl⟩ := Table.get?_eq_some_iff.mp hget
          have hread : (st.goto t (.read entry.job (rows.nodes.row entry.job.node_id))).Leads env
              s' := by
            refine h.claim_read (m := m) hrows ?_
            rw [Store.holding_row]
            exact hs
          refine .cons (.get t entry.job) ?_ hread
          simp only [Store.step, hc, h.row hrows, hget]
  · cases hs

theorem Refines.reclaim (h : Refines s st) (hs : s.reclaim t = some s') : st.Leads env s' := by
  unfold Sys.reclaim at hs
  split at hs
  · rename_i m job cached htask
    have hconn := h.conns t
    generalize hc : st.conns t = c at hconn
    rw [htask] at hconn
    cases hconn
    split at hs
    · rename_i hnone
      cases hs
      refine .cons (.claim t s.clock) ?_ (.refl (h.close h.db (fun e => .inl (h.lock e)) rfl rfl
        .idle))
      simp only [Store.step, Store.claim, hc, h.db, hnone]
    · rename_i rows hrows
      rw [← Store.goto_self hc]
      exact h.claim_read hrows hs
  · cases hs

/-- The commit of a recovery that has just read its row. As for a claim. -/
theorem Refines.recover_read {job : Job} {rows : ExecutionRows} (h : Refines s st)
    (hrows : s.executions job.execution_id = some rows)
    (hs : (match process_recovered_job (rows.load job.execution_id s.clock) job.node_id m with
      | .missing => some (s.park t (.returning (some m)))
      | .terminal session =>
        some (s.commit t job.execution_id (rows.commit (rows.load job.execution_id s.clock) session)
          session.ws_events (.returning (some m)))
      | .proceed session =>
        some (s.commit t job.execution_id (rows.commit (rows.load job.execution_id s.clock) session)
          session.ws_events (.recovered m job (session.nodes.row job.node_id)))) = some s') :
    (st.goto t (.recovering m job (rows.nodes.row job.node_id))).Leads env s' := by
  have hdb : (st.goto t (.recovering m job (rows.nodes.row job.node_id))).db job.execution_id
      = some rows := by
    rw [← hrows, ← h.db]
    rfl
  have hstep : ∀ st', (st.goto t (.recovering m job (rows.nodes.row job.node_id))).recover t
        s.clock = some st' → st'.Leads env s' →
      (st.goto t (.recovering m job (rows.nodes.row job.node_id))).Leads env s' :=
    fun st' hst' => .cons (.recover t s.clock) hst'
  simp only [Store.recover, Store.goto_conns_self, hdb, Store.holding_row] at hstep
  cases hjob : process_recovered_job (rows.load job.execution_id s.clock) job.node_id m with
  | missing =>
      simp only [hjob, Option.some.injEq] at hs hstep
      subst hs
      exact hstep _ rfl (.refl (h.close h.db (fun e => .inl (h.lock e))
        (Function.update_idem ..) rfl (.returning _)))
  | terminal session =>
      simp only [hjob, Option.some.injEq] at hs hstep
      subst hs
      refine hstep _ rfl (.refl (h.close ?_ (fun e => .inl (h.lock e))
        (Function.update_idem ..) rfl (.returning _)))
      simp only [Store.goto, Store.put, h.db, Sys.commit]
  | proceed session =>
      simp only [hjob, Option.some.injEq] at hs hstep
      subst hs
      refine hstep _ rfl (.refl (h.goto ?_ h.lock ?_ rfl (.recovered ..)))
      · simp only [Store.goto, Store.put, h.db, Sys.commit]
      · simp only [Store.goto, Store.put, Function.update_idem]

theorem Refines.recover (h : Refines s st) (hs : s.recover t m = some s') : st.Leads env s' := by
  unfold Sys.recover at hs
  split at hs
  · rename_i entry hidle hentry
    have hconn := h.conns t
    generalize hc : st.conns t = c at hconn
    rw [hidle] at hconn
    cases hconn
    split at hs
    · cases hs
      exact .refl (h.stay rfl rfl (hc ▸ .returning _))
    · rename_i rows hrows
      cases hget : rows.nodes.get? entry.job.node_id with
      | none =>
          simp only [process_recovered_job, ExecutionRows.load, hget, Option.some.injEq] at hs
          subst hs
          exact .refl (h.stay rfl rfl (hc ▸ .returning _))
      | some node =>
          obtain ⟨hkey, rfl⟩ := Table.get?_eq_some_iff.mp hget
          refine .cons (.recover_get t m entry.job) ?_ (h.recover_read hrows hs)
          simp only [Store.step, hc, h.row hrows, hget]
  · cases hs

/-- The read of the execution; what else `invoke` needs may be missing. -/
theorem Refines.invoke (h : Refines s st) (hs : s.invoke env t = some s') : st.Leads env s' := by
  unfold Sys.invoke at hs
  split at hs
  · rename_i m job attempt htask
    have hconn := h.conns t
    generalize hc : st.conns t = c at hconn
    rw [htask] at hconn
    cases hconn
    -- whatever is missing, the session ends
    have hcrash : st.Leads env (s.park t .idle) :=
      .cons (.crash t) rfl (.refl (h.close h.db (fun e => .inl (h.lock e)) rfl rfl .idle))
    split at hs
    · cases hs
      exact hcrash
    · rename_i rows hrows
      split at hs
      · cases hs
        exact hcrash
      · split at hs
        · cases hs
          exact hcrash
        · cases hs
          have hload : st.step env (.load t)
              = some (st.goto t (.executing job rows.execution)) := by
            simp only [Store.step, hc, h.db, hrows]
          exact .cons (.load t) hload
            (.refl (h.goto h.db h.lock rfl rfl (.invoked _ _ _ job rfl rfl)))
  · cases hs

/-- Session `t` has locked the execution of `job` and re-read its nodes. -/
def Store.holds_lock (st : Store) (t : ℕ) (job : Job) (execution : Execution)
    (nodes : Table String NodeExecution) (result : ExecutorResult) : Store :=
  { st.goto t (.refreshed job execution nodes result) with
    lock := Function.update st.lock job.execution_id (some t) }

/-- The lock is free again when a session is closed that has taken it. -/
theorem Refines.holds_lock (h : Refines s st) (job : Job) (execution : Execution)
    (nodes : Table String NodeExecution) (result : ExecutorResult) (e : ℕ) :
    (st.holds_lock t job execution nodes result).lock e = none ∨
      (st.holds_lock t job execution nodes result).lock e = some t := by
  by_cases he : e = job.execution_id
  · exact .inr (he ▸ Function.update_self ..)
  · exact .inl ((Function.update_of_ne he ..).trans (h.lock e))

/-- The commit of a completion that has just re-read its rows. The session has the lock
and has just re-read the rows, so its snapshot is what is stored; the execution instance
is the one of its claim on both sides. -/
theorem Refines.complete_refreshed {job : Job} {execution : Execution} {rows : ExecutionRows}
    {result : ExecutorResult} {d : WorkflowDefinition} {node_def : Node} (h : Refines s st)
    (hrows : s.executions job.execution_id = some rows)
    (hlookup : Sys.lookup env rows job.node_id = some (d, node_def))
    (hs : (match process_job_complete (rows.refresh execution job.execution_id s.clock) d node_def
        job.node_id result with
      | .returned => some (s.park t (.returning (some m)))
      | .raised _ => some (s.park t .idle)
      | .committed (session, pubs) =>
        some (s.commit t job.execution_id
          (rows.commit (rows.refresh execution job.execution_id s.clock) session) session.ws_events
          (.publishing (some m) job.execution_id (Sys.jobs_of session pubs) []))) = some s') :
    (st.holds_lock t job execution rows.nodes result).Leads env s' := by
  have hfree := fun e => h.holds_lock (t := t) job execution rows.nodes result e
  have hconn : (st.holds_lock t job execution rows.nodes result).conns t
      = .refreshed job execution rows.nodes result := Function.update_self ..
  have hdb : (st.holds_lock t job execution rows.nodes result).db = s.executions := h.db
  have hconns : ∀ conn, Function.update (st.holds_lock t job execution rows.nodes result).conns t
      conn = Function.update st.conns t conn := fun conn => Function.update_idem ..
  -- from here on, of the session only this is needed
  generalize st.holds_lock t job execution rows.nodes result = u at hfree hconn hdb hconns ⊢
  have hstep : ∀ st', u.complete env t s.clock = some st' → st'.Leads env s' → u.Leads env s' :=
    fun st' hst' => .cons (.complete t s.clock) hst'
  simp only [Store.complete, hconn, hdb, hrows, hlookup] at hstep
  cases hdone : process_job_complete (rows.refresh execution job.execution_id s.clock) d node_def
      job.node_id result with
  | returned =>
      simp only [hdone, Option.some.injEq] at hs hstep
      subst hs
      exact hstep _ rfl (.refl (h.close hdb hfree (hconns _) rfl (.returning _)))
  | raised error =>
      simp only [hdone, Option.some.injEq] at hs hstep
      subst hs
      exact hstep _ rfl (.refl (h.close hdb hfree (hconns _) rfl .idle))
  | committed done =>
      obtain ⟨session, pubs⟩ := done
      simp only [hdone, Option.some.injEq] at hs hstep
      subst hs
      refine hstep _ rfl (.refl (h.goto ?_ (fun e => ?_) ?_ rfl
        (.publishing _ _ _ _ job pubs rfl ?_)))
      · simp only [Store.goto, Store.release, Store.put, hdb, Sys.commit]
      · rcases hfree e with he | he <;> simp [Store.goto, Store.release, Store.put, he]
      · exact hconns _
      · simp only [Sys.jobs_of, List.map_nil, List.nil_append, List.map_map]
        exact (List.map_id pubs).symm

/-- Lock, re-read and commit. -/
theorem Refines.complete {result : ExecutorResult} (h : Refines s st)
    (hs : s.complete env t result = some s') : st.Leads env s' := by
  unfold Sys.complete at hs
  split at hs
  · rename_i m context execution hphase
    have hconn := h.conns t
    generalize hc : st.conns t = c at hconn
    rw [hphase] at hconn
    cases hconn with
    | invoked _ _ _ job he hn =>
    rw [← he, ← hn] at hs
    have hcrash : st.Leads env (s.park t .idle) :=
      .cons (.crash t) rfl (.refl (h.close h.db (fun e => .inl (h.lock e)) rfl rfl .idle))
    split at hs
    · cases hs
      exact hcrash
    · rename_i rows hrows
      have hdb : st.db job.execution_id = some rows := by rw [h.db, hrows]
      split at hs
      · cases hs
        exact hcrash
      · rename_i d node_def hlookup
        refine .cons (.lock t result) (by simp only [Store.step, hc, h.lock, if_true]; rfl) ?_
        refine .cons (.refresh t) (by
          simp only [Store.step, Store.goto, Function.update_self, hdb, Function.update_idem]
          rfl) ?_
        exact h.complete_refreshed hrows hlookup hs
  · cases hs

/-- The message ids of everything that was published. The ids that the worker has
collected are those of the jobs it published, in order. -/
theorem Refines.finish (h : Refines s st) (hs : s.finish t = some s') : st.Leads env s' := by
  unfold Sys.finish at hs
  split at hs
  · rename_i msg e sent events htask
    have hconn := h.conns t
    generalize hc : st.conns t = c at hconn
    rw [htask] at hconn
    cases hconn with
    | publishing _ _ _ _ job pubs he hpubs =>
    subst he
    split at hs
    · rename_i rows hrows
      cases hs
      have hids : pubs.zip (sent.map Prod.snd) = sent := by
        rw [hpubs, List.map_nil, List.append_nil, List.zip_map', List.map_id']
      have hput : st.step env (.finish t (sent.map Prod.snd)) = some ((st.put job.execution_id
          { rows with nodes := Sys.set_message_ids rows.nodes sent }).close t) := by
        simp only [Store.step, hc, h.db, hrows, hids]
      refine .cons _ hput (.refl (h.close ?_ (fun e => .inl (h.lock e)) rfl rfl (.returning _)))
      simp only [Store.put, h.db]
    · rename_i hnone
      have hend : st.step env (.finish t []) = some (st.close t) := by
        simp only [Store.step, hc, h.db, hnone]
      split at hs
      · cases hs
        exact .cons (.finish t []) hend (.refl (h.close h.db (fun e => .inl (h.lock e)) rfl rfl
          (.returning _)))
      · cases hs
        exact .cons (.finish t []) hend (.refl (h.close h.db (fun e => .inl (h.lock e)) rfl rfl
          .idle))
  · cases hs

/-- **One step.** What a worker or a recovery loop does in one step is a run of reads and
commits. The number of statements differs from step to step: none for a publish, two for a
claim, and for a completion the lock, the read and the commit. Between two steps of the
system no session holds a lock, which is what lets the next one start. -/
theorem Refines.step {a : Action} (h : Refines s st) (ha : a.handles = true)
    (hs : s.step env a = some s') : st.Leads env s' := by
  obtain ⟨u, hu, rfl⟩ := Option.map_eq_some_iff.mp hs
  -- the clock is not part of the rows
  suffices hleads : st.Leads env u by
    obtain ⟨st', hrun, hrefines⟩ := hleads
    exact ⟨st', hrun, hrefines.db, hrefines.lock, hrefines.conns⟩
  cases a with
  | claim t m => exact h.claim hu
  | recover t m => exact h.recover hu
  | reclaim t => exact h.reclaim hu
  | invoke t => exact h.invoke hu
  | complete t result => exact h.complete hu
  | finish t => exact h.finish hu
  | crash t =>
      simp only [Sys.act, Sys.crash] at hu
      split at hu <;> cases hu
      exact .cons (.crash t) rfl (.refl (h.close h.db (fun e => .inl (h.lock e)) rfl rfl .idle))
  | publish_error t =>
      simp only [Sys.act, Sys.publish_error] at hu
      split at hu <;> cases hu
      exact .cons (.crash t) rfl (.refl (h.close h.db (fun e => .inl (h.lock e)) rfl rfl .idle))
  | publish t =>
      simp only [Sys.act, Sys.publish] at hu
      split at hu <;> cases hu
      rename_i msg e job owed sent events htask
      have hconn := h.conns t
      generalize hc : st.conns t = c at hconn
      rw [htask] at hconn
      cases hconn with
      | publishing _ _ _ _ job' pubs he hpubs =>
      refine .refl (h.stay rfl rfl (hc ▸ .publishing _ _ _ _ job' pubs he ?_))
      simpa using hpubs
  | flush t =>
      simp only [Sys.act, Sys.flush] at hu
      split at hu
      · rename_i phase event events htask
        split at hu <;> cases hu
        have hconn := h.conns t
        rw [htask] at hconn
        exact .refl (h.stay rfl rfl hconn)
      · cases hu
  | ack t =>
      simp only [Sys.act, Sys.ack] at hu
      split at hu <;> cases hu
      rename_i m htask
      have hconn := h.conns t
      generalize hc : st.conns t = c at hconn
      rw [htask] at hconn
      cases hconn
      exact .refl (h.stay rfl rfl (hc ▸ .idle))
  | reply t =>
      simp only [Sys.act, Sys.reply] at hu
      split at hu <;> cases hu
      rename_i htask
      have hconn := h.conns t
      generalize hc : st.conns t = c at hconn
      rw [htask] at hconn
      cases hconn
      exact .refl (h.stay rfl rfl (hc ▸ .idle))
  | _ => cases ha

end Step

/-! ## Runs -/

/-- The rows of `s`, with no session at work. -/
def Store.of_sys (s : Sys) : Store where
  db := s.executions
  lock := fun _ => none
  conns := fun _ => .idle

/-- **Every run of the workers and the recovery loops**, from a state in which they are
idle, is a run of reads and commits that ends with the same rows. So what is proved of all
runs of reads and commits holds of those of the system; there are more of the former,
since another session may come between a read and its commit. -/
theorem statements_of_run {env : Env} {s s' : Sys} (hidle : ∀ t, (s.tasks t).phase = .idle)
    (hrun : Reaches (Sys.step env) (fun _ a => a.handles = true) s s') :
    ∃ st', Reaches (Store.step env) (fun _ _ => True) (Store.of_sys s) st' ∧
      st'.db = s'.executions := by
  have hstart : Refines s (Store.of_sys s) :=
    ⟨rfl, fun _ => rfl, fun t => hidle t ▸ .idle⟩
  obtain ⟨st', hsts, hrefines⟩ := hrun.simulate hstart fun u a u' v hR ha hs => hR.step ha hs
  exact ⟨st', hsts, hrefines.db⟩

end EventFlow
