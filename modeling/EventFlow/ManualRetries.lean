/-
Manual retries of one node, with every `SELECT` and every `COMMIT` a step.

`ExecutionEngine.retry_node` reads the node, checks that it is DEAD_LETTERED,
moves it to QUEUED and flushes, reads the unresolved dead letter, commits,
publishes, and commits the message id. The status is checked twice, by
`retry_node` and by `transition_node_status`, but the second `SELECT` returns
the instance the session already holds, so both checks look at one read.
Nothing locks the row before the flush, and the flush is an `UPDATE` by primary
key whose `attempt` is computed from that read.

Two calls that have both read DEAD_LETTERED therefore both commit and both
publish, and the counter moves once ([`not_one_retry`]). With no call writing
over a row that has left DEAD_LETTERED since it was read, one call wins and the
others are turned away ([`one_retry_of_kept`]).
-/
import EventFlow.DeadLetters
import EventFlow.ReadCommitted
import Mathlib.Data.Finset.Card

set_option autoImplicit false

namespace EventFlow

open Transition

/-! ## Calls -/

/-- How far one call of `retry_node` has come. `loaded` is its session as the
instances were read, `session` as the code has changed them. -/
inductive RetryCall where
  /-- Not made yet. -/
  | idle
  /-- The node has been read and is DEAD_LETTERED. -/
  | read (cached : NodeExecution)
  /-- `transition_node_status` has flushed: the row is locked. -/
  | flushed (loaded session : Session)
  /-- The dead letter has been looked for; `dlq_job` is its position. -/
  | selected (loaded session : Session) (dlq_job : Option ℕ)
  /-- The first commit is done. -/
  | committed (node : NodeExecution)
  /-- The message is on the stream. -/
  | published (node : NodeExecution) (message_id : Option ℕ)
  /-- The call has returned. -/
  | returned (node : NodeExecution)
  /-- The call has raised, and its transaction is rolled back. -/
  | raised (error : PyError)

/-- The first commit of the call is done. -/
def RetryCall.has_committed : RetryCall → Bool
  | .committed _ => true
  | .published .. => true
  | .returned _ => true
  | _ => false

def RetryCall.has_returned : RetryCall → Bool
  | .returned _ => true
  | _ => false

def RetryCall.has_ended : RetryCall → Bool
  | .returned _ => true
  | .raised _ => true
  | _ => false

/-- The session of a call that has written and not yet committed, as it was
loaded and as it is. -/
def RetryCall.sessions : RetryCall → Option (Session × Session)
  | .flushed loaded session => some (loaded, session)
  | .selected loaded session _ => some (loaded, session)
  | _ => none

/-- The rows of one execution, who has the lock of the node row, the calls, and
the jobs they have published. -/
structure RetryStore where
  rows : ExecutionRows
  lock : Option ℕ
  calls : ℕ → RetryCall
  stream : List Job

/-- The reads, the writes and the commits of call `t`. `now` is what
`datetime.now` returns. -/
inductive RetryStep where
  /-- The `SELECT` of the node and its execution. -/
  | select (t : ℕ)
  /-- The `UPDATE` that `transition_node_status` flushes. -/
  | flush (t now : ℕ)
  /-- The `SELECT` of the unresolved dead letter. -/
  | select_dlq (t : ℕ)
  /-- The first `COMMIT`. -/
  | commit (t now : ℕ)
  /-- `publish_node_execution`, and what it returns. -/
  | publish (t : ℕ) (message_id : Option ℕ)
  /-- The second `COMMIT`, if there is a message id to record. -/
  | finish (t : ℕ)

namespace RetryStore

/-- Call `t` goes to `call`. -/
def goto (s : RetryStore) (t : ℕ) (call : RetryCall) : RetryStore :=
  { s with calls := Function.update s.calls t call }

/-- Call `t` raises. -/
def abort (s : RetryStore) (t : ℕ) (error : PyError) : RetryStore :=
  { s.goto t (.raised error) with lock := if s.lock = some t then none else s.lock }

/-- The position of the unresolved dead letter of a node. -/
def dlq_position (jobs : List DeadLetterJob) (n : String) : Option ℕ :=
  jobs.findIdx? fun job => decide (job.node_id = n ∧ job.resolved_at = none)

/-- `dlq_job.resolved_at = now` on the row at a position. -/
def resolve_at (jobs : List DeadLetterJob) (dlq_job : Option ℕ) (now : ℕ) :
    List DeadLetterJob :=
  match dlq_job with
  | none => jobs
  | some i => jobs.modify i fun job =>
    { job with resolved_at := some now, resolution_note := some "Manually retried via API" }

/-- The read of `retry_node` and the check that follows it. -/
def select (env : Env) (n : String) (owner_api_key_id : ℕ) (s : RetryStore) (t : ℕ) :
    RetryStore :=
  match s.rows.nodes.get? n with
  | none => s.abort t (.app
      { message := "NodeExecution not found", code := "not_found", status_code := 404 })
  | some node =>
    if env.owner s.rows.execution ≠ some owner_api_key_id then
      s.abort t (.app
        { message := "NodeExecution not found", code := "not_found", status_code := 404 })
    else if node.status ≠ .DEAD_LETTERED then
      s.abort t (.app
        { message := "Cannot retry node in " ++ node.status.name ++
            " state. Must be DEAD_LETTERED.",
          code := "invalid_state" })
    else s.goto t (.read node)

/-- One step of one of the calls on node `n` of execution `e`. -/
def step (env : Env) (e : ℕ) (n : String) (owner_api_key_id : ℕ) (s : RetryStore) :
    RetryStep → Option RetryStore
  | .select t =>
    match s.calls t with
    | .idle => some (s.select env n owner_api_key_id t)
    | _ => none
  | .flush t now =>
    match s.calls t with
    | .read cached =>
      let loaded := { s.rows.load e now with nodes := s.rows.nodes.set n cached }
      match transition_node_status loaded n .DEAD_LETTERED .QUEUED with
      | .error err => some (s.abort t err)
      | .ok session =>
        -- the `UPDATE` waits while another transaction has written the row
        if s.lock = none then some { s.goto t (.flushed loaded session) with lock := some t }
        else none
    | _ => none
  | .select_dlq t =>
    match s.calls t with
    | .flushed loaded session =>
      -- `scalar_one_or_none` refuses a second unresolved row
      if 2 ≤ (unresolved s.rows.dead_letter_jobs n).length then
        some (s.abort t .multiple_results_found)
      else some (s.goto t (.selected loaded session (dlq_position s.rows.dead_letter_jobs n)))
    | _ => none
  | .commit t now =>
    match s.calls t with
    | .selected loaded session dlq_job =>
      some { s.goto t (.committed (session.nodes.row n)) with
        rows := { s.rows.commit loaded session with
          dead_letter_jobs := resolve_at s.rows.dead_letter_jobs dlq_job now }
        lock := none }
    | _ => none
  | .publish t message_id =>
    match s.calls t with
    | .committed node =>
      some { s.goto t (.published node message_id) with
        stream := s.stream ++ [⟨e, s.rows.execution.workflow_version_id, n, node.attempt⟩] }
    | _ => none
  | .finish t =>
    match s.calls t with
    | .published node none => some (s.goto t (.returned node))
    | .published node (some message_id) =>
      let current := { node with redis_message_id := some message_id }
      let stored := node.flush current (s.rows.nodes.row n)
      if s.lock = none then
        some { s.goto t (.returned current) with
          rows := { s.rows with nodes := s.rows.nodes.set n stored } }
      else none
    | _ => none

end RetryStore

/-! ## One call alone -/

section Alone

variable {jobs : List DeadLetterJob} {n : String}

/-- The row that is found and resolved is the one `resolve_jobs` writes. -/
theorem RetryStore.resolve_at_position (hone : (unresolved jobs n).length ≤ 1) (now : ℕ) :
    RetryStore.resolve_at jobs (RetryStore.dlq_position jobs n) now = resolve_jobs jobs n now := by
  induction jobs with
  | nil => rfl
  | cons job jobs ih =>
      unfold RetryStore.dlq_position at ih ⊢
      rw [List.findIdx?_cons]
      by_cases hjob : job.node_id = n ∧ job.resolved_at = none
      · -- the first row is the one, and there is no other
        have hnone : unresolved jobs n = [] := by
          rw [unresolved, List.filter_cons, if_pos (by simpa using hjob), List.length_cons] at hone
          exact List.eq_nil_of_length_eq_zero (by unfold unresolved; omega)
        have hrest : resolve_jobs jobs n now = jobs := by
          refine (List.map_congr_left fun job' hjob' => if_neg fun h => ?_).trans (List.map_id' _)
          exact List.filter_eq_nil_iff.mp hnone job' hjob' (by simpa using h)
        rw [if_pos (by simpa using hjob)]
        show List.modify _ 0 _ = (if _ then _ else _) :: resolve_jobs jobs n now
        rw [if_pos hjob, hrest, List.modify_zero_cons]
      · rw [if_neg (by simpa using hjob)]
        have hone' : (unresolved jobs n).length ≤ 1 := by
          rwa [unresolved, List.filter_cons, if_neg (by simpa using hjob)] at hone
        have ih := ih hone'
        show RetryStore.resolve_at _ _ _ = (if _ then _ else _) :: resolve_jobs jobs n now
        rw [if_neg hjob, ← ih]
        cases List.findIdx? (fun job => decide (job.node_id = n ∧ job.resolved_at = none)) jobs with
        | none => rfl
        | some i => rfl

/-- A dead letter at a position is resolved, whatever the position. -/
theorem RetryStore.unresolved_resolve_at (jobs : List DeadLetterJob) (n : String)
    (dlq_job : Option ℕ) (now : ℕ) :
    (unresolved (RetryStore.resolve_at jobs dlq_job now) n).length
      ≤ (unresolved jobs n).length := by
  cases dlq_job with
  | none => exact le_refl _
  | some i =>
      show (unresolved (jobs.modify i _) n).length ≤ _
      rw [List.modify_eq_set_getElem?]
      cases jobs[i]? with
      | none => exact le_refl _
      | some job => exact (unresolved_set_sublist (by simp) jobs i n).length_le

variable {env : Env} {e owner t now : ℕ} {s : RetryStore}

/-- A call that nobody disturbs raises what `retry_node` raises. The read is where it is
raised: a missing node, another owner and a wrong status are all seen there, and nothing
has been written yet. -/
theorem RetryStore.run_alone_error {err : PyError} (hidle : s.calls t = .idle)
    (hlock : s.lock = none) (hone : (unresolved s.rows.dead_letter_jobs n).length ≤ 1)
    (h : retry_node env (s.rows.load e now) s.rows.dead_letter_jobs n owner = .error err) :
    s.step env e n owner (.select t) = some (s.goto t (.raised err)) := by
  have habort : ∀ err, s.abort t err = s.goto t (.raised err) := by
    intro err
    simp only [RetryStore.abort, hlock, reduceCtorEq, if_false]
    rw [RetryStore.goto, hlock]
  simp only [RetryStore.step, hidle, RetryStore.select, habort]
  unfold retry_node at h
  change (match s.rows.nodes.get? n with | none => _ | some node => _) = _ at h
  cases hget : s.rows.nodes.get? n with
  | none =>
      rw [hget] at h
      cases h
      rfl
  | some node =>
      rw [hget] at h
      change (if env.owner s.rows.execution ≠ some owner then _ else _) = _ at h
      dsimp only
      by_cases howner : env.owner s.rows.execution ≠ some owner
      · rw [if_pos howner] at h ⊢
        cases h
        rfl
      rw [if_neg howner] at h ⊢
      by_cases hst : node.status ≠ .DEAD_LETTERED
      · rw [if_pos hst] at h ⊢
        cases h
        rfl
      -- past the check nothing raises
      obtain ⟨s₁, htr, -, -⟩ := transition_node_status_total .QUEUED
        (s := s.rows.load e now) hget (not_not.mp hst) rfl
      rw [if_neg hst, htr] at h
      simp only [bind, Except.bind] at h
      rw [if_neg (by omega)] at h
      cases h

/-- **One call alone is `retry_node`.** With nobody else between its steps, a call commits
what `retry_node` computes on the rows as they are. This is what ties the interleaved
model to the sequential one: the four steps read what `retry_node` reads and write what it
writes, so on rows that nobody else touches they are the same. -/
theorem RetryStore.run_alone {session : Session} {jobs : List DeadLetterJob}
    (hidle : s.calls t = .idle) (hlock : s.lock = none)
    (hone : (unresolved s.rows.dead_letter_jobs n).length ≤ 1)
    (h : retry_node env (s.rows.load e now) s.rows.dead_letter_jobs n owner
      = .ok (session, jobs)) :
    run (RetryStore.step env e n owner) s [.select t, .flush t now, .select_dlq t, .commit t now]
      = some { s.goto t (.committed (session.nodes.row n)) with
          rows :=
            { s.rows.commit (s.rows.load e now) session with dead_letter_jobs := jobs } } := by
  obtain ⟨⟨node, hget, howner, hst⟩, htr, -, -, hjobs⟩ := retry_node_ok h
  obtain ⟨hkey, hrow⟩ := Table.get?_eq_some_iff.mp hget
  have hselect : s.step env e n owner (.select t) = some (s.goto t (.read node)) := by
    simp only [RetryStore.step, hidle, RetryStore.select]
    rw [show s.rows.nodes.get? n = some node from hget]
    change env.owner s.rows.execution = some owner at howner
    dsimp only
    rw [if_neg (not_not.mpr howner), if_neg (not_not.mpr hst)]
  have hloaded : { s.rows.load e now with nodes := s.rows.nodes.set n node }
      = s.rows.load e now := by
    rw [← hrow]
    show { s.rows.load e now with nodes := s.rows.nodes.set n (s.rows.nodes.row n) } = _
    rw [Table.set_row]
    rfl
  have hfew : ¬ 2 ≤ (unresolved s.rows.dead_letter_jobs n).length := by omega
  rw [run_cons, hselect, Option.bind_some]
  simp only [run_cons, run_nil, RetryStore.step, RetryStore.goto, Function.update_self,
    Option.bind_some, hloaded, htr, hlock, if_true, if_neg hfew, Function.update_idem,
    RetryStore.resolve_at_position hone, hjobs]
  rfl

end Alone

/-! ## The invariant -/

/-- A call writes the row only while it still is what the call has read. -/
def RetryStore.keeps_dead_lettered (n : String) (s : RetryStore) : RetryStep → Bool
  | .flush _ _ => decide ((s.rows.nodes.row n).status = .DEAD_LETTERED)
  | _ => true

/-- A DEAD_LETTERED node of a workflow of `owner_api_key_id`, and no call yet.
At most one dead letter of the node is unresolved, as everywhere in the system
([`RetryStore.initial_of_reaches`]). -/
structure RetryStore.Initial (env : Env) (n : String) (owner_api_key_id : ℕ)
    (s : RetryStore) : Prop where
  key : n ∈ s.rows.nodes.keys
  owner : env.owner s.rows.execution = some owner_api_key_id
  dead : (s.rows.nodes.row n).status = .DEAD_LETTERED
  one : (unresolved s.rows.dead_letter_jobs n).length ≤ 1
  lock : s.lock = none
  calls : ∀ t, s.calls t = .idle

/-- A session that is going to write QUEUED and the attempt after `attempt`. -/
structure Retries (n : String) (attempt : ℕ) (loaded session : Session) : Prop where
  dead : (loaded.nodes.row n).status = .DEAD_LETTERED
  attempt : (loaded.nodes.row n).attempt = attempt
  queued : ∃ now, session.nodes.row n = (loaded.nodes.row n).enter .QUEUED now

/-- No call has committed yet. -/
structure RetryStore.Pending (n : String) (s s₀ : RetryStore) : Prop where
  dead : (s.rows.nodes.row n).status = .DEAD_LETTERED
  attempt : (s.rows.nodes.row n).attempt = (s₀.rows.nodes.row n).attempt
  calls : ∀ t, (s.calls t).has_committed = false ∧ (s.calls t).has_ended = false
  stream : s.stream = s₀.stream

/-- Call `w` has committed, and nobody else will. -/
structure RetryStore.Won (n : String) (s s₀ : RetryStore) (w : ℕ) : Prop where
  queued : (s.rows.nodes.row n).status = .QUEUED
  attempt : (s.rows.nodes.row n).attempt = (s₀.rows.nodes.row n).attempt + 1
  winner : (s.calls w).has_committed = true
  others : ∀ t, t ≠ w → (s.calls t).has_committed = false
  free : ∀ t, (s.calls t).sessions = none
  refused : ∀ t err, s.calls t = .raised err → ∃ error : AppError, err = .app error ∧
    (error.code = "invalid_state" ∨ error.code = "invalid_transition")
  /-- The job goes out once. -/
  stream : match s.calls w with
    | .committed node => node.attempt = (s₀.rows.nodes.row n).attempt + 1 ∧ s.stream = s₀.stream
    | _ => ∃ job : Job, s.stream = s₀.stream ++ [job] ∧ job.node_id = n ∧
        job.attempt = (s₀.rows.nodes.row n).attempt + 1

structure RetryInv (env : Env) (n : String) (owner_api_key_id : ℕ) (s₀ s : RetryStore) :
    Prop where
  key : n ∈ s.rows.nodes.keys
  owner : env.owner s.rows.execution = some owner_api_key_id
  one : (unresolved s.rows.dead_letter_jobs n).length ≤ 1
  read : ∀ t cached, s.calls t = .read cached → cached.status = .DEAD_LETTERED ∧
    cached.attempt = (s₀.rows.nodes.row n).attempt
  writes : ∀ t p, (s.calls t).sessions = some p →
    Retries n (s₀.rows.nodes.row n).attempt p.1 p.2
  lock : ∀ t p, (s.calls t).sessions = some p → s.lock = some t
  phase : s.Pending n s₀ ∨ ∃ w, s.Won n s₀ w

section Inv

variable {env : Env} {e owner t w : ℕ} {n : String} {s₀ s s' : RetryStore} {a : RetryStep}
  {call : RetryCall}

theorem RetryStore.Initial.retryInv (h : s.Initial env n owner) :
    RetryInv env n owner s s := by
  refine ⟨h.key, h.owner, h.one, ?_, ?_, ?_, .inl ⟨h.dead, rfl, fun t => ?_, rfl⟩⟩
  · intro t cached hcall
    rw [h.calls] at hcall
    cases hcall
  · intro t p hp
    rw [h.calls] at hp
    cases hp
  · intro t p hp
    rw [h.calls] at hp
    cases hp
  · rw [h.calls]
    exact ⟨rfl, rfl⟩

/-- A call goes on, and none has committed. -/
theorem RetryStore.Pending.update (h : s.Pending n s₀)
    (hcalls : s'.calls = Function.update s.calls t call) (hrows : s'.rows = s.rows)
    (hstream : s'.stream = s.stream) (hcommitted : call.has_committed = false)
    (hended : call.has_ended = false) : s'.Pending n s₀ := by
  refine ⟨hrows ▸ h.dead, hrows ▸ h.attempt, fun u => ?_, hstream.trans h.stream⟩
  rw [hcalls]
  by_cases hu : u = t
  · subst hu
    rw [Function.update_self]
    exact ⟨hcommitted, hended⟩
  · rw [Function.update_of_ne hu]
    exact h.calls u

/-- A call other than the winner ends. Nothing of what the winner has done is touched. -/
theorem RetryStore.Won.refuse (h : s.Won n s₀ w) {error : AppError}
    (hcalls : s'.calls = Function.update s.calls t (.raised (.app error)))
    (hrows : s'.rows = s.rows) (hstream : s'.stream = s.stream) (ht : t ≠ w)
    (hcode : error.code = "invalid_state") : s'.Won n s₀ w := by
  have hw : s'.calls w = s.calls w := by rw [hcalls, Function.update_of_ne ht.symm]
  refine ⟨hrows ▸ h.queued, hrows ▸ h.attempt, hw ▸ h.winner, fun u hu => ?_, fun u => ?_,
    fun u err hu => ?_, ?_⟩
  · rw [hcalls]
    by_cases hut : u = t
    · subst hut
      rw [Function.update_self]
      rfl
    · rw [Function.update_of_ne hut]
      exact h.others u hu
  · rw [hcalls]
    by_cases hut : u = t
    · subst hut
      rw [Function.update_self]
      rfl
    · rw [Function.update_of_ne hut]
      exact h.free u
  · rw [hcalls] at hu
    by_cases hut : u = t
    · subst hut
      rw [Function.update_self] at hu
      cases hu
      exact ⟨error, rfl, .inl hcode⟩
    · rw [Function.update_of_ne hut] at hu
      exact h.refused u err hu
  · rw [hw, hstream]
    exact h.stream

/-- The winner goes on. The stream gets its job when it publishes, and the row its message
id when it finishes; status and attempt stay. -/
theorem RetryStore.Won.proceed (h : s.Won n s₀ w)
    (hcalls : s'.calls = Function.update s.calls w call)
    (hqueued : (s'.rows.nodes.row n).status = (s.rows.nodes.row n).status)
    (hattempt : (s'.rows.nodes.row n).attempt = (s.rows.nodes.row n).attempt)
    (hcommitted : call.has_committed = true) (hnot : ∀ node, call ≠ .committed node)
    (hstream : ∃ job : Job, s'.stream = s₀.stream ++ [job] ∧ job.node_id = n ∧
      job.attempt = (s₀.rows.nodes.row n).attempt + 1) : s'.Won n s₀ w := by
  have hw : s'.calls w = call := by rw [hcalls, Function.update_self]
  have hother : ∀ u, u ≠ w → s'.calls u = s.calls u := by
    intro u hu
    rw [hcalls, Function.update_of_ne hu]
  refine ⟨hqueued.trans h.queued, hattempt.trans h.attempt, hw ▸ hcommitted, fun u hu => ?_,
    fun u => ?_, fun u err hu => ?_, ?_⟩
  · rw [hother u hu]
    exact h.others u hu
  · by_cases huw : u = w
    · subst huw
      rw [hw]
      cases call <;> first | rfl | cases hcommitted
    · rw [hother u huw]
      exact h.free u
  · by_cases huw : u = w
    · subst huw
      rw [hw] at hu
      subst hu
      cases hcommitted
    · rw [hother u huw] at hu
      exact h.refused u err hu
  · rw [hw]
    split
    · exact absurd rfl (hnot _)
    · exact hstream

/-- The first commit of call `t`. Before it nobody had committed, and a second session at
work would have to hold the lock as well. -/
theorem RetryStore.Pending.win (h : s.Pending n s₀) {node : NodeExecution}
    (hcalls : s'.calls = Function.update s.calls t (.committed node))
    (hqueued : (s'.rows.nodes.row n).status = .QUEUED)
    (hattempt : (s'.rows.nodes.row n).attempt = (s₀.rows.nodes.row n).attempt + 1)
    (hnode : node.attempt = (s₀.rows.nodes.row n).attempt + 1) (hstream : s'.stream = s.stream)
    (halone : ∀ u p, (s.calls u).sessions = some p → u = t) : s'.Won n s₀ t := by
  have ht : s'.calls t = .committed node := by rw [hcalls, Function.update_self]
  have hother : ∀ u, u ≠ t → s'.calls u = s.calls u := by
    intro u hu
    rw [hcalls, Function.update_of_ne hu]
  refine ⟨hqueued, hattempt, ?_, fun u hu => ?_, fun u => ?_, fun u err hu => ?_, ?_⟩
  · rw [ht]
    rfl
  · rw [hother u hu]
    exact (h.calls u).1
  · by_cases hut : u = t
    · subst hut
      rw [ht]
      rfl
    · rw [hother u hut, Option.eq_none_iff_forall_ne_some]
      intro p hp
      exact hut (halone u p hp)
  · -- nobody has been turned away before the first commit
    by_cases hut : u = t
    · subst hut
      rw [ht] at hu
      cases hu
    · rw [hother u hut] at hu
      have hended := (h.calls u).2
      rw [hu] at hended
      cases hended
  · rw [ht]
    exact ⟨hnode, hstream.trans h.stream⟩

/-- Call `t` goes to `call`: what is left to show of the invariant. The other calls keep
what they have read and what they are about to write; so it is enough to look at the new
call, the lock and the phase. -/
theorem RetryInv.update (h : RetryInv env n owner s₀ s)
    (hcalls : s'.calls = Function.update s.calls t call)
    (hkeys : s'.rows.nodes.keys = s.rows.nodes.keys)
    (hversion : s'.rows.execution.workflow_version_id = s.rows.execution.workflow_version_id)
    (hone : (unresolved s'.rows.dead_letter_jobs n).length
      ≤ (unresolved s.rows.dead_letter_jobs n).length)
    (hread : ∀ cached, call = .read cached → cached.status = .DEAD_LETTERED ∧
      cached.attempt = (s₀.rows.nodes.row n).attempt)
    (hwrites : ∀ p, call.sessions = some p →
      Retries n (s₀.rows.nodes.row n).attempt p.1 p.2 ∧ s'.lock = some t)
    (hlock : ∀ u, u ≠ t → s.lock = some u → s'.lock = some u)
    (hphase : s'.Pending n s₀ ∨ ∃ w, s'.Won n s₀ w) : RetryInv env n owner s₀ s' := by
  have hother : ∀ u, u ≠ t → s'.calls u = s.calls u := by
    intro u hu
    rw [hcalls, Function.update_of_ne hu]
  have ht : s'.calls t = call := by rw [hcalls, Function.update_self]
  refine ⟨hkeys ▸ h.key, ?_, hone.trans h.one, fun u cached hu => ?_, fun u p hp => ?_,
    fun u p hp => ?_, hphase⟩
  · rw [Env.owner, hversion]
    exact h.owner
  · by_cases hut : u = t
    · subst hut
      exact hread cached (ht ▸ hu)
    · rw [hother u hut] at hu
      exact h.read u cached hu
  · by_cases hut : u = t
    · subst hut
      exact (hwrites p (ht ▸ hp)).1
    · rw [hother u hut] at hp
      exact h.writes u p hp
  · by_cases hut : u = t
    · subst hut
      exact (hwrites p (ht ▸ hp)).2
    · rw [hother u hut] at hp
      exact hlock u hut (h.lock u p hp)

/-- The read: DEAD_LETTERED until a call has committed, and from then on the call is
refused. So a read that is DEAD_LETTERED has the attempt the node had at the start, which
is what makes all pending writes the same. -/
theorem RetryInv.select (h : RetryInv env n owner s₀ s) (hidle : s.calls t = .idle) :
    RetryInv env n owner s₀ (s.select env n owner t) := by
  have hselect : s.select env n owner t
      = if (s.rows.nodes.row n).status ≠ .DEAD_LETTERED then
          s.abort t (.app
            { message := "Cannot retry node in " ++ (s.rows.nodes.row n).status.name ++
                " state. Must be DEAD_LETTERED.",
              code := "invalid_state" })
        else s.goto t (.read (s.rows.nodes.row n)) := by
    rw [RetryStore.select, Table.get?_of_mem h.key]
    dsimp only
    rw [if_neg (not_not.mpr h.owner)]
  rw [hselect]
  rcases h.phase with hpending | ⟨w, hwon⟩
  · -- before the first commit every read finds DEAD_LETTERED
    rw [if_neg (not_not.mpr hpending.dead)]
    refine h.update rfl rfl rfl (le_refl _) ?_ ?_ (fun u _ hu => hu)
      (.inl (hpending.update rfl rfl rfl rfl rfl))
    · intro cached hcached
      cases hcached
      exact ⟨hpending.dead, hpending.attempt⟩
    · intro p hp
      cases hp
  · -- after it the row is QUEUED, and the call is turned away
    have hne : (s.rows.nodes.row n).status ≠ .DEAD_LETTERED := by
      rw [hwon.queued]
      decide
    have htw : t ≠ w := by
      rintro rfl
      have hwinner := hwon.winner
      rw [hidle] at hwinner
      cases hwinner
    rw [if_pos hne]
    refine h.update rfl rfl rfl (le_refl _) ?_ ?_ (fun u hu hlock => ?_)
      (.inr ⟨w, hwon.refuse rfl rfl rfl htw rfl⟩)
    · intro cached hcached
      cases hcached
    · intro p hp
      cases hp
    · show (if s.lock = some t then none else s.lock) = some u
      rw [if_neg, hlock]
      rw [hlock, Option.some.injEq]
      exact hu

/-- The write, of a row that still is DEAD_LETTERED. The condition is used here and
nowhere else. The write puts the session on the row with the lock, so from now on no other
call can write, and the row is DEAD_LETTERED, so nobody has committed yet. -/
theorem RetryInv.flush {now : ℕ} (h : RetryInv env n owner s₀ s)
    (hkeep : (s.rows.nodes.row n).status = .DEAD_LETTERED)
    (hs : s.step env e n owner (.flush t now) = some s') : RetryInv env n owner s₀ s' := by
  simp only [RetryStore.step] at hs
  split at hs
  · rename_i cached hcall
    obtain ⟨hst, hattempt⟩ := h.read t cached hcall
    obtain ⟨session, htr, -, hnodes⟩ := transition_node_status_total .QUEUED
      (s := { s.rows.load e now with nodes := s.rows.nodes.set n cached })
      (Table.get?_set_self cached h.key) hst rfl
    rw [htr] at hs
    dsimp only at hs
    split at hs
    · rename_i hlock
      cases hs
      rcases h.phase with hpending | ⟨w, hwon⟩
      · refine h.update rfl rfl rfl (le_refl _) ?_ ?_ ?_
          (.inl (hpending.update rfl rfl rfl rfl rfl))
        · intro cached hcached
          cases hcached
        · intro p hp
          cases hp
          have hrow : ((s.rows.nodes.set n cached).row n) = cached := Table.row_set_self ..
          refine ⟨⟨?_, ?_, now, ?_⟩, rfl⟩
          · rw [hrow]
            exact hst
          · rw [hrow]
            exact hattempt
          · rw [hnodes, hrow, Table.row_set_self]
            rfl
        · intro u _ hu
          rw [hlock] at hu
          cases hu
      · -- after the first commit the row is QUEUED
        rw [hwon.queued] at hkeep
        cases hkeep
    · cases hs
  · cases hs

/-- The look for the dead letter finds at most one. -/
theorem RetryInv.select_dlq (h : RetryInv env n owner s₀ s)
    (hs : s.step env e n owner (.select_dlq t) = some s') : RetryInv env n owner s₀ s' := by
  simp only [RetryStore.step] at hs
  split at hs
  · rename_i loaded session hcall
    have hsessions : (s.calls t).sessions = some (loaded, session) := by rw [hcall]; rfl
    have hone := h.one
    rw [if_neg (by omega)] at hs
    cases hs
    rcases h.phase with hpending | ⟨w, hwon⟩
    · refine h.update rfl rfl rfl (le_refl _) ?_ ?_ (fun u _ hu => hu)
        (.inl (hpending.update rfl rfl rfl rfl rfl))
      · intro cached hcached
        cases hcached
      · intro p hp
        cases hp
        exact ⟨h.writes t _ hsessions, h.lock t _ hsessions⟩
    · rw [hwon.free t] at hsessions
      cases hsessions
  · cases hs

/-- The first commit: QUEUED at the next attempt, whatever the row was. If somebody had
won before, this call would have written over a row that was QUEUED, which the condition
excludes; so the one who commits first is the only one. -/
theorem RetryInv.commit {now : ℕ} (h : RetryInv env n owner s₀ s)
    (hs : s.step env e n owner (.commit t now) = some s') : RetryInv env n owner s₀ s' := by
  simp only [RetryStore.step] at hs
  split at hs
  · rename_i loaded session dlq_job hcall
    cases hs
    have hsessions : (s.calls t).sessions = some (loaded, session) := by rw [hcall]; rfl
    have hlock := h.lock t _ hsessions
    obtain ⟨hdead, hattempt, at_, hqueued⟩ := h.writes t _ hsessions
    rcases h.phase with hpending | ⟨w, hwon⟩
    · refine h.update rfl rfl rfl (RetryStore.unresolved_resolve_at ..) ?_ ?_ ?_
        (.inr ⟨t, hpending.win rfl ?_ ?_ ?_ rfl ?_⟩)
      · intro cached hcached
        cases hcached
      · intro p hp
        cases hp
      · intro u hu hlocked
        rw [hlock, Option.some.injEq] at hlocked
        exact absurd hlocked.symm hu
      · -- both columns differ from what was loaded, so both are written
        show written (loaded.nodes.row n).status (session.nodes.row n).status _ = _
        rw [hqueued, NodeExecution.enter_status, hdead]
        rfl
      · show written (loaded.nodes.row n).attempt (session.nodes.row n).attempt _ = _
        rw [hqueued, NodeExecution.enter_queued_attempt, hattempt, written, if_neg (by omega)]
      · rw [hqueued, NodeExecution.enter_queued_attempt, hattempt]
      · -- whoever has flushed has the lock, and `t` has it
        intro u p hp
        have hu := h.lock u p hp
        rw [hlock, Option.some.injEq] at hu
        exact hu.symm
    · rw [hwon.free t] at hsessions
      cases hsessions
  · cases hs

/-- The call that has committed is the winner. -/
theorem RetryInv.winner (h : RetryInv env n owner s₀ s)
    (ht : (s.calls t).has_committed = true) : s.Won n s₀ t := by
  rcases h.phase with hpending | ⟨w, hwon⟩
  · rw [(hpending.calls t).1] at ht
    cases ht
  · by_cases htw : t = w
    · exact htw ▸ hwon
    · rw [hwon.others t htw] at ht
      cases ht

theorem RetryInv.publish {message_id : Option ℕ} (h : RetryInv env n owner s₀ s)
    (hs : s.step env e n owner (.publish t message_id) = some s') :
    RetryInv env n owner s₀ s' := by
  simp only [RetryStore.step] at hs
  split at hs
  · rename_i node hcall
    cases hs
    have hwon : s.Won n s₀ t := h.winner (by rw [hcall]; rfl)
    have hstream := hwon.stream
    rw [hcall] at hstream
    refine h.update rfl rfl rfl (le_refl _) ?_ ?_ (fun u _ hu => hu)
      (.inr ⟨t, hwon.proceed rfl rfl rfl rfl ?_
        ⟨⟨e, s.rows.execution.workflow_version_id, n, node.attempt⟩, ?_, rfl, hstream.1⟩⟩)
    · intro cached hcached
      cases hcached
    · intro p hp
      cases hp
    · intro node hnode
      cases hnode
    · show s.stream ++ _ = _
      rw [hstream.2]
  · cases hs

/-- The second commit of the winner, of the message id alone. Only a call that has
committed comes here, and this is the winner. -/
theorem RetryInv.finish (h : RetryInv env n owner s₀ s)
    (hs : s.step env e n owner (.finish t) = some s') : RetryInv env n owner s₀ s' := by
  simp only [RetryStore.step] at hs
  split at hs
  · rename_i node hcall
    cases hs
    have hwon : s.Won n s₀ t := h.winner (by rw [hcall]; rfl)
    have hstream := hwon.stream
    rw [hcall] at hstream
    refine h.update rfl rfl rfl (le_refl _) ?_ ?_ (fun u _ hu => hu)
      (.inr ⟨t, hwon.proceed rfl rfl rfl rfl ?_ hstream⟩)
    · intro cached hcached
      cases hcached
    · intro p hp
      cases hp
    · intro node hnode
      cases hnode
  · rename_i node message_id hcall
    split at hs
    · cases hs
      have hwon : s.Won n s₀ t := h.winner (by rw [hcall]; rfl)
      have hstream := hwon.stream
      rw [hcall] at hstream
      refine h.update rfl rfl rfl (le_refl _) ?_ ?_ (fun u _ hu => hu)
        (.inr ⟨t, hwon.proceed rfl ?_ ?_ rfl ?_ hstream⟩)
      · intro cached hcached
        cases hcached
      · intro p hp
        cases hp
      · -- only the message id differs, so only that column is written
        show ((s.rows.nodes.set n _).row n).status = _
        rw [Table.row_set_self]
        exact written_same ..
      · show ((s.rows.nodes.set n _).row n).attempt = _
        rw [Table.row_set_self]
        exact written_same ..
      · intro node hnode
        cases hnode
    · cases hs
  · cases hs

/-- Every step keeps the invariant, if it keeps what was read. -/
theorem RetryInv.step (h : RetryInv env n owner s₀ s)
    (hkeep : s.keeps_dead_lettered n a = true) (hs : s.step env e n owner a = some s') :
    RetryInv env n owner s₀ s' := by
  cases a with
  | select t =>
      simp only [RetryStore.step] at hs
      split at hs
      · rename_i hidle
        cases hs
        exact h.select hidle
      · cases hs
  | flush t now => exact h.flush (of_decide_eq_true hkeep) hs
  | select_dlq t => exact h.select_dlq hs
  | commit t now => exact h.commit hs
  | publish t message_id => exact h.publish hs
  | finish t => exact h.finish hs

end Inv

/-! ## Exactly one -/

/-- The rows of a run of the system, with manual resolutions, are rows calls can
start from. -/
theorem RetryStore.initial_of_reaches {env : Env} {s : Sys} {e owner : ℕ} {n : String}
    {rows : ExecutionRows}
    (hrun : Reaches (Sys.dlq_step env) (fun _ a => a.atomic = true) Sys.init s)
    (hrows : s.executions e = some rows) (hkey : n ∈ rows.nodes.keys)
    (hdead : (rows.nodes.row n).status = .DEAD_LETTERED)
    (howner : env.owner rows.execution = some owner) (stream : List Job) :
    RetryStore.Initial env n owner ⟨rows, none, fun _ => .idle, stream⟩ :=
  ⟨hkey, howner, hdead, ((bookInv_of_run hrun).2 e rows hrows).one n, rfl, fun _ => rfl⟩

/-- What concurrent retries promise, `ts` being all the calls made so far. -/
structure RetryStore.OneRetry (n : String) (s₀ s : RetryStore) (ts : Finset ℕ) : Prop where
  /-- The counter counts the calls that have committed. -/
  attempt : (s.rows.nodes.row n).attempt
    = (s₀.rows.nodes.row n).attempt + (ts.filter fun t => (s.calls t).has_committed).card
  /-- Whoever is turned away is told why. -/
  refused : ∀ t err, s.calls t = .raised err → ∃ error : AppError, err = .app error ∧
    (error.code = "invalid_state" ∨ error.code = "invalid_transition")
  /-- When all have ended, exactly one has succeeded, and it has published. -/
  once : ts.Nonempty → (∀ t ∈ ts, (s.calls t).has_ended = true) →
    (ts.filter fun t => (s.calls t).has_returned).card = 1 ∧
      (s.rows.nodes.row n).attempt = (s₀.rows.nodes.row n).attempt + 1 ∧
      ∃ job : Job, s.stream = s₀.stream ++ [job] ∧ job.node_id = n ∧
        job.attempt = (s.rows.nodes.row n).attempt

theorem RetryCall.has_returned_iff {call : RetryCall} :
    call.has_returned = true ↔ ∃ node, call = .returned node := by
  cases call <;> simp [RetryCall.has_returned]

/-- A call that has ended has committed if and only if it has returned. -/
theorem RetryCall.has_returned_of_ended {call : RetryCall} (h : call.has_ended = true) :
    call.has_returned = call.has_committed := by
  cases call with
  | returned node => rfl
  | raised error => rfl
  | idle => cases h
  | read cached => cases h
  | flushed loaded session => cases h
  | selected loaded session dlq_job => cases h
  | committed node => cases h
  | published node message_id => cases h

section Result

variable {n : String} {s₀ s : RetryStore} {w : ℕ} {ts : Finset ℕ}

theorem RetryStore.Pending.oneRetry (h : s.Pending n s₀) : RetryStore.OneRetry n s₀ s ts := by
  refine ⟨?_, fun t err ht => ?_, fun hts hended => ?_⟩
  · have hnone : (ts.filter fun t => (s.calls t).has_committed) = ∅ := by
      refine Finset.filter_eq_empty_iff.mpr fun t _ => ?_
      rw [(h.calls t).1]
      exact Bool.false_ne_true
    rw [hnone, Finset.card_empty]
    exact h.attempt
  · have hended := (h.calls t).2
    rw [ht] at hended
    cases hended
  · obtain ⟨t, ht⟩ := hts
    have hnot := (h.calls t).2
    rw [hended t ht] at hnot
    cases hnot

/-- With a winner the claim can be read off: it has committed, every other call has been
refused or has not read yet, the row is QUEUED at the next attempt, and the stream has at
most one job of the node, the winner's. -/
theorem RetryStore.Won.oneRetry (h : s.Won n s₀ w) (hts : ∀ t, t ∉ ts → s.calls t = .idle) :
    RetryStore.OneRetry n s₀ s ts := by
  have hw : w ∈ ts := by
    by_contra hw
    have hwinner := h.winner
    rw [hts w hw] at hwinner
    cases hwinner
  have hcommitted : (ts.filter fun t => (s.calls t).has_committed) = {w} := by
    refine Finset.eq_singleton_iff_unique_mem.mpr ⟨Finset.mem_filter.mpr ⟨hw, h.winner⟩, ?_⟩
    intro t ht
    by_contra htw
    have hc := (Finset.mem_filter.mp ht).2
    rw [h.others t htw] at hc
    cases hc
  refine ⟨?_, h.refused, fun _ hended => ?_⟩
  · rw [hcommitted, Finset.card_singleton]
    exact h.attempt
  · have hall : (ts.filter fun t => (s.calls t).has_returned) = {w} := by
      rw [← hcommitted]
      refine Finset.filter_congr fun t ht => ?_
      rw [RetryCall.has_returned_of_ended (hended t ht)]
    -- the winner has ended and has not raised
    have hreturned : (s.calls w).has_returned = true := by
      rw [RetryCall.has_returned_of_ended (hended w hw)]
      exact h.winner
    obtain ⟨node, hnode⟩ := RetryCall.has_returned_iff.mp hreturned
    have hstream := h.stream
    rw [hnode] at hstream
    refine ⟨by rw [hall, Finset.card_singleton], h.attempt, ?_⟩
    rw [h.attempt]
    exact hstream

end Result

/-- The call a step belongs to. -/
def RetryStep.caller : RetryStep → ℕ
  | .select t => t
  | .flush t _ => t
  | .select_dlq t => t
  | .commit t _ => t
  | .publish t _ => t
  | .finish t => t

/-- A step moves its own call and no other. A frame for the runs below: a call that is not
scheduled stays idle. -/
theorem RetryStore.calls_of_step {env : Env} {e owner t : ℕ} {n : String} {s s' : RetryStore}
    {a : RetryStep} (hs : s.step env e n owner a = some s') (ht : t ≠ a.caller) :
    s'.calls t = s.calls t := by
  cases a with
  | select u =>
      simp only [RetryStore.step, RetryStore.select] at hs
      split at hs
      · cases hs
        split
        · exact Function.update_of_ne ht ..
        · split
          · exact Function.update_of_ne ht ..
          · split <;> exact Function.update_of_ne ht ..
      · cases hs
  | flush u now =>
      simp only [RetryStore.step] at hs
      split at hs
      · split at hs
        · cases hs
          exact Function.update_of_ne ht ..
        · split at hs <;> cases hs
          exact Function.update_of_ne ht ..
      · cases hs
  | select_dlq u =>
      simp only [RetryStore.step] at hs
      split at hs
      · split at hs <;> cases hs <;> exact Function.update_of_ne ht ..
      · cases hs
  | commit u now =>
      simp only [RetryStore.step] at hs
      split at hs <;> cases hs
      exact Function.update_of_ne ht ..
  | publish u message_id =>
      simp only [RetryStore.step] at hs
      split at hs <;> cases hs
      exact Function.update_of_ne ht ..
  | finish u =>
      simp only [RetryStore.step] at hs
      split at hs
      · cases hs
        exact Function.update_of_ne ht ..
      · split at hs <;> cases hs
        exact Function.update_of_ne ht ..
      · cases hs

/-- The calls that take no step are idle. -/
theorem RetryStore.idle_of_reaches {env : Env} {e owner : ℕ} {n : String} {s₀ s : RetryStore}
    {ts : Finset ℕ} (h₀ : ∀ t, s₀.calls t = .idle)
    (hrun : Reaches (RetryStore.step env e n owner) (fun _ a => a.caller ∈ ts) s₀ s) :
    ∀ t, t ∉ ts → s.calls t = .idle := by
  refine hrun.invariant (fun u => ∀ t, t ∉ ts → u.calls t = .idle) (fun t _ => h₀ t) ?_
  intro u a v hidle hcaller hs t ht
  have hne : t ≠ a.caller := fun h => ht (h ▸ hcaller)
  rw [RetryStore.calls_of_step hs hne]
  exact hidle t ht

/-- **Concurrent manual retries do not duplicate work**, for any number of calls on a
DEAD_LETTERED node and any order of their reads and commits, in every run in which no call
writes over a row that has left DEAD_LETTERED since the call read it. The invariant has
two phases. While no call has committed, all that have read have read the same row and
would write the same; the lock lets one of them through. Once a call has committed, the
row is not DEAD_LETTERED any more: who reads now is refused, and who has read before could
only write over it, which the condition excludes. The other direction fails in
[`not_one_retry`]. -/
theorem one_retry_of_kept (env : Env) (e owner : ℕ) (n : String) (s₀ s : RetryStore)
    (h₀ : s₀.Initial env n owner)
    (hrun : Reaches (RetryStore.step env e n owner)
      (fun u a => u.keeps_dead_lettered n a = true) s₀ s)
    (ts : Finset ℕ) (hts : ∀ t, t ∉ ts → s.calls t = .idle) :
    RetryStore.OneRetry n s₀ s ts := by
  have hinv : RetryInv env n owner s₀ s :=
    hrun.invariant (RetryInv env n owner s₀) h₀.retryInv fun _ _ _ h hkeep hs => h.step hkeep hs
  rcases hinv.phase with hpending | ⟨w, hwon⟩
  · exact hpending.oneRetry
  · exact hwon.oneRetry hts

/-- The only node of the execution has died at its only attempt. -/
def dead_store : RetryStore where
  rows :=
    { execution :=
        { workflow_id := 0, workflow_version_id := 0, status := .FAILED, input_payload := none }
      nodes :=
        { keys := ["a"]
          row := fun _ =>
            { node_type := "task", status := .DEAD_LETTERED, attempt := 1, max_attempts := 1 } }
      dead_letter_jobs :=
        [{ node_id := "a", redis_message_id := some 0, reason := "boom", attempts := 1
           payload := ⟨0, 0, "a", 1⟩ }] }
  lock := none
  calls := fun _ => .idle
  stream := []

theorem dead_store_initial : dead_store.Initial (env_of solo) "a" 0 :=
  ⟨List.mem_singleton_self "a", rfl, rfl, by decide, rfl, fun _ => rfl⟩

/-- What is left of a call after its read. -/
def rest_of_call (t : ℕ) : List RetryStep :=
  [.flush t t, .select_dlq t, .commit t t, .publish t (some t), .finish t]

/-- How the calls of two clients have ended, and what they have published. -/
def RetryStore.summary (s : RetryStore) : Bool × Bool × Bool × Bool × ℕ :=
  ((s.calls 0).has_ended, (s.calls 1).has_ended, (s.calls 0).has_returned,
    (s.calls 1).has_returned, s.stream.length)

/-- Both calls read before either writes. Both return and both publish. -/
theorem not_one_retry : ¬ ∀ (env : Env) (e owner : ℕ) (n : String) (s₀ s : RetryStore),
    s₀.Initial env n owner →
    Reaches (RetryStore.step env e n owner) (fun _ _ => True) s₀ s →
    ∀ ts : Finset ℕ, (∀ t, t ∉ ts → s.calls t = .idle) → RetryStore.OneRetry n s₀ s ts := by
  intro h
  have hst : (run (restrict (RetryStore.step (env_of solo) 0 "a" 0)
      fun _ a => decide (RetryStep.caller a ∈ ({0, 1} : Finset ℕ))) dead_store
      (.select 0 :: .select 1 :: rest_of_call 0 ++ rest_of_call 1)).map RetryStore.summary
      = some (true, true, true, true, 2) := by decide +kernel
  obtain ⟨s, hs, hst⟩ := Option.map_eq_some_iff.mp hst
  simp only [RetryStore.summary, Prod.mk.injEq] at hst
  have hrun : Reaches (RetryStore.step (env_of solo) 0 "a" 0)
      (fun _ a => a.caller ∈ ({0, 1} : Finset ℕ)) dead_store s :=
    (reaches_of_run hs).mono fun _ _ hcaller => of_decide_eq_true hcaller
  have hone := h (env_of solo) 0 0 "a" dead_store s dead_store_initial
    (hrun.mono fun _ _ _ => trivial) {0, 1} (RetryStore.idle_of_reaches (fun _ => rfl) hrun)
  obtain ⟨-, -, job, hstream, -⟩ := hone.once ⟨0, by decide⟩ (by simp [hst])
  have hlen := hst.2.2.2.2
  rw [hstream] at hlen
  cases hlen

/-- The second call reads after the first has committed, and is refused. -/
theorem one_retry_of_kept_solo : ∃ s : RetryStore,
    s.summary = (true, true, true, false, 1) ∧ RetryStore.OneRetry "a" dead_store s {0, 1} := by
  have hst : (run (restrict (RetryStore.step (env_of solo) 0 "a" 0)
      fun u a => u.keeps_dead_lettered "a" a && decide (a.caller ∈ ({0, 1} : Finset ℕ)))
      dead_store (.select 0 :: rest_of_call 0 ++ [.select 1])).map RetryStore.summary
      = some (true, true, true, false, 1) := by decide +kernel
  obtain ⟨s, hs, hst⟩ := Option.map_eq_some_iff.mp hst
  have hrun := reaches_of_run hs
  exact ⟨s, hst, one_retry_of_kept (env_of solo) 0 0 "a" dead_store s dead_store_initial
    (hrun.mono fun _ _ h => (Bool.and_eq_true_iff.mp h).1) {0, 1}
    (RetryStore.idle_of_reaches (fun _ => rfl)
      (hrun.mono fun _ _ h => of_decide_eq_true (Bool.and_eq_true_iff.mp h).2))⟩

end EventFlow
