/-
What the log of a node says, read from its beginning.

The log rows of a node tell a story. [`Story.next`] is an automaton that reads
them: it knows which row may follow which, and it keeps the last attempt that was
scheduled. [`log_replays`] says that in every reachable state of the atomic
alphabet the rows of every node are such a story, and that where it ends agrees
with the row of the node: a node is RUNNING, SUCCEEDED or DEAD_LETTERED only if
the log says so, and while it waits for a retry the attempt it waits for is the
one the log has announced.

One step adds the entries of a [`Line`] to the story of each node. Skipping,
queueing and manual retries add none; everything else a worker does to a node
it also writes down.
-/
import EventFlow.Journal

set_option autoImplicit false

namespace EventFlow

open Transition

/-! ## What the log of a node says -/

/-- What a reader takes from a log row. -/
inductive Entry where
  | recovered
  | started
  | succeeded
  | failed
  | scheduled (attempt : ℕ)
  | buried
  | other
deriving DecidableEq, Repr

/-- The attempt in the metadata of a log row. -/
def ExecutionLog.attempt (log : ExecutionLog) : ℕ :=
  match log.metadata.bind (List.lookup "attempt") with
  | some (.int k) => k.toNat
  | _ => 0

/-- Reading the `event_type`. -/
def ExecutionLog.entry (log : ExecutionLog) : Entry :=
  if log.event_type = "job_recovered" then .recovered
  else if log.event_type = "node_started" then .started
  else if log.event_type = "node_succeeded" then .succeeded
  else if log.event_type = "node_failed" then .failed
  else if log.event_type = "retry_scheduled" then .scheduled log.attempt
  else if log.event_type = "dead_lettered" then .buried
  else .other

/-- The entries of a list of log rows that are about node `n`. -/
def entries_of (n : String) (logs : List ExecutionLog) : List Entry :=
  (logs.filter fun log => log.node_id = some n).map ExecutionLog.entry

/-- Where the story of a node has got to. -/
inductive Chapter where
  /-- Nothing has been told. -/
  | untold
  | started
  /-- Its job has been taken over while it was running. -/
  | interrupted
  | succeeded
  /-- It has failed, and what follows from it has not been told yet. -/
  | failed
  | waiting
  | dead
deriving DecidableEq, Repr

/-- The story so far: the chapter and the last attempt that was scheduled. -/
structure Story where
  chapter : Chapter := .untold
  attempt : ℕ := 0
deriving DecidableEq, Repr

/-- How an entry continues the story, if it can. -/
def Story.next : Story → Entry → Option Story
  | ⟨.started, k⟩, .recovered => some ⟨.interrupted, k⟩
  | ⟨.interrupted, _⟩, .recovered => none
  | ⟨.failed, _⟩, .recovered => none
  | story, .recovered => some story
  | ⟨.untold, k⟩, .started => some ⟨.started, k⟩
  | ⟨.interrupted, k⟩, .started => some ⟨.started, k⟩
  | ⟨.waiting, k⟩, .started => some ⟨.started, k⟩
  | ⟨.dead, k⟩, .started => some ⟨.started, k⟩
  | ⟨.started, k⟩, .succeeded => some ⟨.succeeded, k⟩
  | ⟨.started, k⟩, .failed => some ⟨.failed, k⟩
  -- attempts are scheduled in order
  | ⟨.failed, k⟩, .scheduled attempt => if k < attempt then some ⟨.waiting, attempt⟩ else none
  | ⟨.failed, k⟩, .buried => some ⟨.dead, k⟩
  | _, _ => none

/-- The story that a list of entries tells, if it is one. -/
def story_of (entries : List Entry) : Option Story :=
  run Story.next {} entries

/-- The statuses a node can have at the end of a chapter. -/
def Chapter.fits : Chapter → NodeExecutionStatus → Bool
  | .untold, .PENDING | .untold, .SKIPPED | .untold, .QUEUED => true
  | .started, .RUNNING => true
  | .succeeded, .SUCCEEDED => true
  | .waiting, .QUEUED => true
  -- a manual retry leaves no log row
  | .dead, .DEAD_LETTERED | .dead, .QUEUED => true
  | _, _ => false

section Fits

variable {chapter : Chapter}

theorem Chapter.eq_of_fits_pending (h : chapter.fits .PENDING = true) : chapter = .untold := by
  cases chapter <;> first | rfl | cases h

theorem Chapter.eq_of_fits_running (h : chapter.fits .RUNNING = true) : chapter = .started := by
  cases chapter <;> first | rfl | cases h

theorem Chapter.eq_of_fits_dead (h : chapter.fits .DEAD_LETTERED = true) : chapter = .dead := by
  cases chapter <;> first | rfl | cases h

/-- A QUEUED node has not been started, or waits again. -/
theorem Chapter.cases_of_fits_queued (h : chapter.fits .QUEUED = true) :
    chapter = .untold ∨ chapter = .waiting ∨ chapter = .dead := by
  cases chapter <;> first | exact .inl rfl | exact .inr (.inl rfl) | exact .inr (.inr rfl) | cases h

/-- No chapter that is open belongs to another status. -/
theorem Chapter.closed_of_fits {status : NodeExecutionStatus} (h : chapter.fits status = true)
    (hst : status ≠ .RUNNING) :
    chapter ≠ .started ∧ chapter ≠ .interrupted ∧ chapter ≠ .failed := by
  refine ⟨?_, ?_, ?_⟩ <;> rintro rfl <;> revert h hst <;> cases status <;> simp [Chapter.fits]

end Fits

/-- What a story says about the row of its node. -/
structure Story.Fits (story : Story) (node : NodeExecution) : Prop where
  status : story.chapter.fits node.status = true
  attempt_le : story.attempt ≤ node.attempt
  waiting : story.chapter = .waiting → story.attempt = node.attempt

/-! ## What one step adds -/

/-- What a step does to the row of a node, and the entries it adds. -/
inductive Line (old new : NodeExecution) : List Entry → Prop
  | same (hst : new.status = old.status) (hatt : new.attempt = old.attempt) : Line old new []
  | follow (hold : old.status = .PENDING) (hst : new.status = .SKIPPED ∨ new.status = .QUEUED)
      (hatt : old.attempt ≤ new.attempt) : Line old new []
  | revive (hold : old.status = .DEAD_LETTERED) (hst : new.status = .QUEUED)
      (hatt : old.attempt ≤ new.attempt) : Line old new []
  | recover (hold : old.status ≠ .RUNNING) (hst : new.status = old.status)
      (hatt : new.attempt = old.attempt) : Line old new [.recovered]
  | start (hold : old.status = .QUEUED) (hst : new.status = .RUNNING)
      (hatt : new.attempt = old.attempt) : Line old new [.started]
  | restart (hold : old.status = .QUEUED ∨ old.status = .RUNNING) (hst : new.status = .RUNNING)
      (hatt : new.attempt = old.attempt) :
      Line old new [.recovered, .started]
  | succeed (hold : old.status = .RUNNING) (hst : new.status = .SUCCEEDED)
      (hatt : new.attempt = old.attempt) : Line old new [.succeeded]
  | retry (hold : old.status = .RUNNING) (hst : new.status = .QUEUED)
      (hatt : new.attempt = old.attempt + 1) :
      Line old new [.failed, .scheduled new.attempt]
  | bury (hold : old.status = .RUNNING) (hst : new.status = .DEAD_LETTERED)
      (hatt : new.attempt = old.attempt) :
      Line old new [.failed, .buried]

section Story

variable {old new : NodeExecution} {story : Story} {lines : List Entry}

/-- **A line continues the story.** For each kind of line the automaton is run on its
entries, from the chapter that fits the old row; the chapter it comes to fits the new one.
-/
theorem Story.Fits.line (h : story.Fits old) (hline : Line old new lines) :
    ∃ story', run Story.next story lines = some story' ∧ story'.Fits new := by
  obtain ⟨chapter, attempt⟩ := story
  obtain ⟨hfits, hle, hwait⟩ := h
  simp only at hfits hle hwait
  cases hline with
  | same hst hatt => exact ⟨_, rfl, by rwa [hst], by rwa [hatt], by rwa [hatt]⟩
  | follow hold hst hatt =>
      obtain rfl := Chapter.eq_of_fits_pending (hold ▸ hfits)
      refine ⟨_, rfl, ?_, hle.trans hatt, by simp⟩
      rcases hst with hst | hst <;> rw [hst] <;> rfl
  | revive hold hst hatt =>
      obtain rfl := Chapter.eq_of_fits_dead (hold ▸ hfits)
      exact ⟨_, rfl, by rw [hst]; rfl, hle.trans hatt, by simp⟩
  | recover hold hst hatt =>
      -- the row only says that the job was taken over
      refine ⟨⟨chapter, attempt⟩, ?_, by rwa [hst], by rwa [hatt], by rwa [hatt]⟩
      have hclosed := Chapter.closed_of_fits hfits hold
      cases chapter <;> first | rfl | simp at hclosed
  | start hold hst hatt =>
      refine ⟨⟨.started, attempt⟩, ?_, by rw [hst]; rfl, by rwa [hatt], by simp⟩
      rcases Chapter.cases_of_fits_queued (hold ▸ hfits) with rfl | rfl | rfl <;> rfl
  | restart hold hst hatt =>
      refine ⟨⟨.started, attempt⟩, ?_, by rw [hst]; rfl, by rwa [hatt], by simp⟩
      rcases hold with hold | hold
      · rcases Chapter.cases_of_fits_queued (hold ▸ hfits) with rfl | rfl | rfl <;> rfl
      · obtain rfl := Chapter.eq_of_fits_running (hold ▸ hfits)
        rfl
  | succeed hold hst hatt =>
      obtain rfl := Chapter.eq_of_fits_running (hold ▸ hfits)
      exact ⟨⟨.succeeded, attempt⟩, rfl, by rw [hst]; rfl, by rwa [hatt], by simp⟩
  | retry hold hst hatt =>
      obtain rfl := Chapter.eq_of_fits_running (hold ▸ hfits)
      refine ⟨⟨.waiting, new.attempt⟩, ?_, by rw [hst]; rfl, le_rfl, fun _ => rfl⟩
      have hlt : attempt < new.attempt := by omega
      exact congrArg (Option.bind · fun story => run Story.next story []) (if_pos hlt)
  | bury hold hst hatt =>
      obtain rfl := Chapter.eq_of_fits_running (hold ▸ hfits)
      exact ⟨⟨.dead, attempt⟩, rfl, by rw [hst]; rfl, by rwa [hatt], by simp⟩

end Story

/-! ## The log rows of a unit of work -/

section NewLogs

variable {s s' : Session} {d : WorkflowDefinition} {node_def : Node} {n : String}

/-- Transitions write no logs. -/
theorem transition_new_logs {from_status to_status : NodeExecutionStatus}
    (h : transition_node_status s n from_status to_status = .ok s') :
    s'.new_logs = s.new_logs := by
  obtain ⟨node, -, -, rfl⟩ := transition_node_status_ok h
  rfl

theorem transition_execution_new_logs {from_status to_status : ExecutionStatus}
    (h : transition_execution_status s from_status to_status = .ok s') :
    s'.new_logs = s.new_logs := by
  obtain ⟨-, rfl⟩ := transition_execution_status_ok h
  rfl

theorem cascade_skip_new_logs {fuel : ℕ} {queue : List String}
    (h : cascade_skip d fuel queue s = .ok s') : s'.new_logs = s.new_logs := by
  induction fuel generalizing queue s with
  | zero =>
      cases h
      rfl
  | succ fuel ih =>
      cases queue with
      | nil =>
          cases h
          rfl
      | cons skip_id queue =>
          unfold cascade_skip at h
          split at h
          · exact ih h
          · split at h
            · simp only [bind, Except.bind] at h
              split at h
              · cases h
              · rename_i s₁ htr
                rw [ih h, transition_new_logs htr]
            · exact ih h

theorem queue_children_new_logs {children : List String} {out out' : List String}
    (h : queue_children d children s out = .ok (s', out')) : s'.new_logs = s.new_logs := by
  induction children generalizing s out with
  | nil =>
      cases h
      rfl
  | cons child_id rest ih =>
      unfold queue_children at h
      split at h
      · exact ih h
      · split at h
        · exact ih h
        · simp only [bind, Except.bind] at h
          split at h
          · cases h
          · split at h
            · exact ih h
            · split at h
              · cases h
              · rename_i s₁ htr
                rw [ih h, transition_new_logs htr]

theorem queue_downstream_nodes_new_logs {result : ExecutorResult} {pubs : List String}
    (h : queue_downstream_nodes s d node_def n result = .ok (s', pubs)) :
    s'.new_logs = s.new_logs := by
  unfold queue_downstream_nodes at h
  dsimp only at h
  split at h
  · cases h
    rfl
  · simp only [bind, Except.bind] at h
    split at h
    · cases h
    · split at h
      · cases h
      · rename_i s₁ hskip
        rw [queue_children_new_logs h, cascade_skip_new_logs hskip]

theorem finalise_new_logs (h : finalise s = .ok s') : s'.new_logs = s.new_logs := by
  unfold finalise at h
  split at h
  · exact transition_execution_new_logs h
  · cases h
    rfl

/-- `finalise` looks at the nodes only. -/
theorem finalise_nodes (h : finalise s = .ok s') : s'.nodes = s.nodes := by
  obtain ⟨s₁, hok, -, hnodes, -⟩ := finalise_spec s
  rw [h, Except.ok.injEq] at hok
  rw [hok, hnodes]

/-- Log rows of node `n` with these entries have been added. -/
def Session.Writes (s s' : Session) (n : String) (entries : List Entry) : Prop :=
  ∃ logs, s'.new_logs = s.new_logs ++ logs ∧ (∀ log ∈ logs, log.node_id = some n) ∧
    logs.map ExecutionLog.entry = entries

theorem Session.Writes.of_eq (h : s'.new_logs = s.new_logs) : s.Writes s' n [] :=
  ⟨[], by rw [h, List.append_nil], by simp, rfl⟩

theorem Session.Writes.trans {u : Session} {entries entries' : List Entry}
    (h₁ : s.Writes s' n entries) (h₂ : s'.Writes u n entries') :
    s.Writes u n (entries ++ entries') := by
  obtain ⟨logs, hlogs, hid, rfl⟩ := h₁
  obtain ⟨logs', hlogs', hid', rfl⟩ := h₂
  refine ⟨logs ++ logs', by rw [hlogs', hlogs, List.append_assoc], fun log hlog => ?_,
    List.map_append⟩
  rcases List.mem_append.mp hlog with hlog | hlog
  · exact hid log hlog
  · exact hid' log hlog

/-- One log row. -/
theorem Session.Writes.log {level : LogLevel} {event_type message : String}
    {metadata : Option JsonObject} {entry : Entry}
    (h : ExecutionLog.entry ⟨some n, level, event_type, message, metadata⟩ = entry) :
    s.Writes (add_log s (some n) level event_type message metadata) n [entry] :=
  ⟨[⟨some n, level, event_type, message, metadata⟩], rfl, by simp, by simp [h]⟩

theorem node_started_writes (s : Session) (n : String) :
    s.Writes (node_started s n) n [.started] :=
  .log (by simp [ExecutionLog.entry])

theorem node_succeeded_writes (s : Session) (n : String) :
    s.Writes (node_succeeded s n) n [.succeeded] :=
  .log (by simp [ExecutionLog.entry])

theorem node_failed_writes (s : Session) (n : String) (error : Option String) :
    s.Writes (node_failed s n error) n [.failed] :=
  .log (by simp [ExecutionLog.entry])

/-- The row that announces a retry names the attempt. -/
theorem retry_scheduled_writes (s : Session) (n : String) (attempt : ℕ) :
    s.Writes (retry_scheduled s n attempt) n [.scheduled attempt] :=
  .log (by simp [ExecutionLog.entry, ExecutionLog.attempt, List.lookup_cons])

theorem dead_lettered_writes (s : Session) (n : String) (reason : Option String) :
    s.Writes (dead_lettered s n reason) n [.buried] :=
  .log (by simp [ExecutionLog.entry])

theorem worker_recovered_job_writes (s : Session) (n : String) (m : ℕ) :
    s.Writes (worker_recovered_job s n m) n [.recovered] :=
  .log (by simp [ExecutionLog.entry])

/-- What `_handle_node_failure` writes. The branch is chosen by the attempt before the
failure, and the attempt that is announced is the one after the requeue. -/
theorem handle_node_failure_writes {pubs : List String}
    (h : handle_node_failure s n = .ok (s', pubs)) :
    s.Writes s' n (if (s.nodes.row n).attempt < (s.nodes.row n).max_attempts then
      [.scheduled (s'.nodes.row n).attempt] else [.buried]) := by
  unfold handle_node_failure at h
  dsimp only at h
  split at h
  · rename_i hleft
    simp only [bind, Except.bind, pure, Except.pure] at h
    split at h
    · cases h
    rename_i s₁ htr₁
    split at h
    · cases h
    rename_i s₂ htr₂
    cases h
    rw [if_pos hleft]
    exact (Session.Writes.of_eq (transition_new_logs htr₁)).trans
      ((Session.Writes.of_eq (transition_new_logs htr₂)).trans (retry_scheduled_writes ..))
  · rename_i hleft
    simp only [bind, Except.bind, pure, Except.pure] at h
    split at h
    · cases h
    rename_i s₁ htr₁
    have hdead := (Session.Writes.of_eq (n := n) (transition_new_logs htr₁)).trans
      (dead_lettered_writes s₁ n (s.nodes.row n).error_message)
    rw [if_neg hleft]
    split at h
    · split at h
      · cases h
      rename_i s₂ htr₂
      cases h
      obtain ⟨logs, hlogs, hid, hentries⟩ := hdead
      exact ⟨logs, by rw [transition_execution_new_logs htr₂]; exact hlogs, hid, hentries⟩
    · cases h
      exact hdead

/-- **What a completion writes.** The log of a completion is about its own node: what is
queued or skipped behind it is not written down. -/
theorem complete_node_writes {node : NodeExecution} {result : ExecutorResult}
    {pubs : List String} (hget : s.nodes.get? n = some node)
    (h : complete_node s d node_def n node result = .ok (s', pubs)) :
    s.Writes s' n (if result.success then [.succeeded] else if node.attempt < node.max_attempts
      then [.failed, .scheduled (s'.nodes.row n).attempt] else [.failed, .buried]) := by
  unfold complete_node at h
  split at h
  · rename_i hres
    simp only [bind, Except.bind, pure, Except.pure] at h
    split at h
    · cases h
    rename_i s₁ htr
    split at h
    · cases h
    rename_i down hdown
    split at h
    · cases h
    rename_i s₃ hfin
    cases h
    rw [if_pos hres]
    have hback : (node_succeeded s₁ n).Writes s' n [] :=
      .of_eq (by rw [finalise_new_logs hfin, queue_downstream_nodes_new_logs hdown])
    have hfirst : s.Writes s₁ n [] := .of_eq (by rw [transition_new_logs htr]; rfl)
    exact hfirst.trans ((node_succeeded_writes s₁ n).trans hback)
  · rename_i hres
    simp only [bind, Except.bind, pure, Except.pure] at h
    split at h
    · cases h
    rename_i s₁ htr
    split at h
    · cases h
    rename_i down hdown
    split at h
    · cases h
    rename_i s₃ hfin
    cases h
    rw [if_neg hres]
    have hback : down.1.Writes s' n [] := .of_eq (finalise_new_logs hfin)
    have hfirst : s.Writes s₁ n [] := .of_eq (by rw [transition_new_logs htr]; rfl)
    -- `_handle_node_failure` sees the attempt of the row
    have hrow : ((node_failed s₁ n result.error).nodes.row n).attempt = node.attempt ∧
        ((node_failed s₁ n result.error).nodes.row n).max_attempts = node.max_attempts := by
      obtain ⟨node₁, hget₁, -, rfl⟩ := transition_node_status_ok htr
      obtain ⟨hkey, -⟩ := Table.get?_eq_some_iff.mp hget
      have hset : (s.set_node n { node with error_message := result.error }).nodes.get? n
          = some { node with error_message := result.error } := Table.get?_set_self _ hkey
      rw [hset, Option.some.injEq] at hget₁
      subst hget₁
      change (((s.nodes.set n _).set n _).row n).attempt = _ ∧
        (((s.nodes.set n _).set n _).row n).max_attempts = _
      rw [Table.row_set_self]
      exact ⟨rfl, rfl⟩
    have hfail := handle_node_failure_writes hdown
    rw [hrow.1, hrow.2] at hfail
    have hall := hfirst.trans ((node_failed_writes s₁ n result.error).trans (hfail.trans hback))
    rw [finalise_nodes hfin]
    split at hall
    · rename_i hleft
      rw [if_pos hleft]
      exact hall
    · rename_i hleft
      rw [if_neg hleft]
      exact hall

end NewLogs

/-! ## The log rows of a step -/

theorem entries_of_append (n : String) (logs logs' : List ExecutionLog) :
    entries_of n (logs ++ logs') = entries_of n logs ++ entries_of n logs' := by
  simp [entries_of]

/-- Log rows of one node only. -/
theorem entries_of_only {n m : String} {logs : List ExecutionLog}
    (h : ∀ log ∈ logs, log.node_id = some n) :
    entries_of m logs = if m = n then logs.map ExecutionLog.entry else [] := by
  unfold entries_of
  split
  · rename_i hm
    rw [hm, List.filter_eq_self.mpr fun log hlog => decide_eq_true (h log hlog)]
  · rename_i hm
    rw [List.filter_eq_nil_iff.mpr fun log hlog => ?_, List.map_nil]
    rw [h log hlog]
    simpa using fun heq : n = m => hm heq.symm

/-- `rows'` has the log rows of `rows` and a line more for each node. -/
def ExecutionRows.Adds (rows rows' : ExecutionRows) : Prop :=
  ∃ added, rows'.logs = rows.logs ++ added ∧
    ∀ n, Line (rows.nodes.row n) (rows'.nodes.row n) (entries_of n added)

section Adds

variable {env : Env} {s s' : Sys} {a : Action} {e : ℕ} {rows rows' : ExecutionRows} {n : String}

theorem ExecutionRows.Adds.quiet (hlogs : rows'.logs = rows.logs)
    (hrow : ∀ n, (rows'.nodes.row n).status = (rows.nodes.row n).status ∧
      (rows'.nodes.row n).attempt = (rows.nodes.row n).attempt) : rows.Adds rows' :=
  ⟨[], by rw [hlogs, List.append_nil], fun n => .same (hrow n).1 (hrow n).2⟩

theorem ExecutionRows.Adds.refl (rows : ExecutionRows) : rows.Adds rows :=
  .quiet rfl fun _ => ⟨rfl, rfl⟩

/-- A unit of work that writes about node `n` only. -/
theorem ExecutionRows.Adds.of_writes {loaded session : Session} {entries : List Entry}
    (hwrites : loaded.Writes session n entries) (hnil : loaded.new_logs = [])
    (hlogs : rows'.logs = rows.logs ++ session.new_logs)
    (hline : Line (rows.nodes.row n) (rows'.nodes.row n) entries)
    (hother : ∀ m, m ≠ n → Line (rows.nodes.row m) (rows'.nodes.row m) []) : rows.Adds rows' := by
  obtain ⟨logs, hnew, hid, rfl⟩ := hwrites
  rw [hnil, List.nil_append] at hnew
  refine ⟨logs, by rw [hlogs, hnew], fun m => ?_⟩
  rw [entries_of_only hid]
  split
  · rename_i hm
    rw [hm]
    exact hline
  · rename_i hm
    exact hother m hm

/-- The same, when one row is set. -/
theorem ExecutionRows.Adds.of_set {loaded session : Session} {entries : List Entry}
    {node : NodeExecution} (hwrites : loaded.Writes session n entries)
    (hnil : loaded.new_logs = []) (hlogs : rows'.logs = rows.logs ++ session.new_logs)
    (hnodes : rows'.nodes = rows.nodes.set n node)
    (hline : Line (rows.nodes.row n) node entries) : rows.Adds rows' := by
  refine .of_writes hwrites hnil hlogs ?_ fun m hm => ?_
  · rw [hnodes, Table.row_set_self]
    exact hline
  · rw [hnodes, Table.row_set_of_ne _ _ hm]
    exact .same rfl rfl

/-- A completion that commits has completed the node. -/
theorem complete_node_of_committed {d : WorkflowDefinition} {node_def : Node}
    {result : ExecutorResult} {execution : Execution} {now : ℕ} {session : Session}
    {pubs : List String}
    (hrun : n ∈ rows.nodes.keys ∧ (rows.nodes.row n).status = .RUNNING)
    (h : process_job_complete (rows.refresh execution e now) d node_def n result
      = .committed (session, pubs)) :
    complete_node (rows.refresh execution e now) d node_def n (rows.nodes.row n) result
      = .ok (session, pubs) := by
  have hget : (rows.refresh execution e now).nodes.get? n = some (rows.nodes.row n) :=
    Table.get?_of_mem hrun.1
  unfold process_job_complete at h
  simp only [hget, hrun.2, ne_eq, not_true_eq_false, if_false] at h
  split at h
  · cases h
  · rename_i done hdone
    cases h
    exact hdone

/-- **What the log says about a completion.** For the node itself the entries are those of
[`complete_node_writes`]; for any other node none is added, and its row has stayed, was
skipped or queued, which the story allows without an entry. -/
theorem ExecutionRows.Adds.complete {d : WorkflowDefinition} {node_def : Node}
    {result : ExecutorResult} {execution : Execution} {now : ℕ} {session : Session}
    {pubs : List String}
    (h : process_job_complete (rows.refresh execution e now) d node_def n result
      = .committed (session, pubs))
    (hdone : Completed d node_def n result rows.nodes execution e now session pubs)
    (hlogs : rows'.logs = rows.logs ++ session.new_logs) (hnodes : rows'.nodes = session.nodes) :
    rows.Adds rows' := by
  have hget : (rows.refresh execution e now).nodes.get? n = some (rows.nodes.row n) :=
    Table.get?_of_mem hdone.running.1
  have hok := complete_node_of_committed hdone.running h
  have hwrites := complete_node_writes hget hok
  have hrun := hdone.running.2
  refine .of_writes hwrites rfl hlogs ?_ fun m hm => ?_
  · rw [hnodes]
    cases hdone with
    | succeed targets _ hkey _ hres hT heff hdead hexec =>
        rw [if_pos hres]
        rcases heff.cases n with ⟨-, hp, -⟩ | ⟨-, hp, -⟩ | ⟨-, -, hrow⟩
        · -- the node itself is SUCCEEDED by then, and so neither skipped nor queued
          rw [Table.row_set_self] at hp
          cases hp
        · rw [Table.row_set_self] at hp
          cases hp
        · rw [hrow, Table.row_set_self]
          exact .succeed hrun rfl rfl
    | requeue hkey _ hres hleft hnodes' hdead hexec =>
        rw [if_neg (by simp [hres]), if_pos hleft, hnodes', Table.row_set_self]
        exact .retry hrun rfl rfl
    | bury hkey _ hres hleft hnodes' hdead hexec =>
        rw [if_neg (by simp [hres]), if_neg hleft, hnodes', Table.row_set_self]
        exact .bury hrun rfl rfl
  · rw [hnodes]
    cases hdone with
    | succeed targets _ hkey _ hres hT heff hdead hexec =>
        -- another node, which follows: it is skipped, or queued, or left
        have hback := Table.row_set_of_ne rows.nodes
          ((rows.nodes.row n).succeed result.output now) hm
        rcases heff.cases m with ⟨-, hp, hrow⟩ | ⟨-, hp, -, hrow⟩ | ⟨-, -, hrow⟩
        · rw [hback] at hp hrow
          rw [hrow]
          exact .follow hp (.inl rfl) le_rfl
        · rw [hback] at hp hrow
          rw [hrow]
          exact .follow hp (.inr rfl) (Nat.le_succ _)
        · rw [hrow, hback]
          exact .same rfl rfl
    | requeue hkey _ hres hleft hnodes' hdead hexec =>
        rw [hnodes', Table.row_set_of_ne _ _ hm]
        exact .same rfl rfl
    | bury hkey _ hres hleft hnodes' hdead hexec =>
        rw [hnodes', Table.row_set_of_ne _ _ hm]
        exact .same rfl rfl

/-! ### The commits of a worker -/

theorem process_job_claim_writes {u u' : Session} (h : process_job_claim u n = .committed u') :
    u.Writes u' n [.started] := by
  unfold process_job_claim at h
  split at h
  · cases h
  · split at h
    · cases h
    · split at h
      · cases h
      · rename_i u₁ htr
        cases h
        exact (Session.Writes.of_eq (transition_new_logs htr)).trans (node_started_writes u₁ n)

/-- Recovery writes its row whatever it finds. -/
theorem process_recovered_job_writes {u u' : Session} {m : ℕ}
    (h : process_recovered_job u n m = .terminal u' ∨ process_recovered_job u n m = .proceed u') :
    u.Writes u' n [.recovered] := by
  have hlog := worker_recovered_job_writes u n m
  unfold process_recovered_job at h
  split at h
  · rcases h with h | h <;> cases h
  · dsimp only at h
    split at h
    · rcases h with h | h <;> cases h
      exact hlog
    · split at h
      · rcases h with h | h <;> cases h
        exact hlog
      · rcases h with h | h <;> cases h
        exact hlog

/-- How a step leaves the log of an execution. -/
def Sys.Logs (s : Sys) (e : ℕ) (rows' : ExecutionRows) : Prop :=
  (∀ n, entries_of n rows'.logs = [] ∧
      ((rows'.nodes.row n).status = .PENDING ∨ (rows'.nodes.row n).status = .QUEUED)) ∨
    ∃ rows, s.executions e = some rows ∧ rows.Adds rows'

theorem Sys.Logs.same (h : s.executions e = some rows') : s.Logs e rows' :=
  .inr ⟨rows', h, .refl rows'⟩

/-- The rows of one execution are written. -/
theorem Sys.Logs.update {e₀ : ℕ} {r : ExecutionRows} (h : s.Logs e₀ r)
    (hrows' : Function.update s.executions e₀ (some r) e = some rows') : s.Logs e rows' := by
  by_cases he : e = e₀
  · subst he
    rw [Function.update_self, Option.some.injEq] at hrows'
    exact hrows' ▸ h
  · rw [Function.update_of_ne he] at hrows'
    exact .same hrows'

theorem start_logs {t vid owner : ℕ} {input : Option JsonObject}
    (h : s.start env t vid input owner = some s') (hrows' : s'.executions e = some rows') :
    s.Logs e rows' := by
  unfold Sys.start at h
  split at h
  · split at h
    · cases h
      exact .same hrows'
    · rename_i session pubs hok
      cases h
      refine Sys.Logs.update (.inl fun n => ?_) hrows'
      obtain ⟨version, -, -, -, -, -, -, -, -, -, -, -, hq, hkeep⟩ := start_execution_spec hok
      constructor
      · refine List.map_eq_nil_iff.mpr (List.filter_eq_nil_iff.mpr fun log hlog => ?_)
        rw [start_execution_new_logs hok log hlog]
        simp
      · by_cases hn : n ∈ pubs
        · refine .inr ?_
          change (session.nodes.row n).status = _
          rw [hq n hn, NodeExecution.enter_status]
        · refine .inl ?_
          change (session.nodes.row n).status = _
          rw [hkeep n hn, initial_node_status]
  · cases h

/-- A manual retry leaves no log row. -/
theorem retry_logs {t e₀ owner : ℕ} (h : s.retry env t e₀ n owner = some s')
    (hrows' : s'.executions e = some rows') : s.Logs e rows' := by
  unfold Sys.retry at h
  split at h
  · split at h
    · cases h
      exact .same hrows'
    · rename_i rows hrows
      dsimp only at h
      split at h
      · cases h
        exact .same hrows'
      · rename_i session jobs hok
        cases h
        obtain ⟨⟨node, hget, -, hst⟩, htr, hsame, hnodes, -⟩ := retry_node_ok hok
        obtain ⟨-, rfl⟩ := Table.get?_eq_some_iff.mp hget
        refine Sys.Logs.update (.inr ⟨rows, hrows, ?_⟩) hrows'
        rw [commit_of_sameButNodes hsame]
        exact .of_set (Session.Writes.of_eq (transition_new_logs htr)) rfl rfl hnodes
          (.revive hst rfl (Nat.le_succ _))
  · cases h

theorem claim_logs {t m : ℕ} (h : s.claim t m = some s') (hrows' : s'.executions e = some rows') :
    s.Logs e rows' := by
  unfold Sys.claim at h
  split at h
  · rename_i entry hidle hentry
    split at h
    · cases h
      exact .same hrows'
    · rename_i rows hrows
      dsimp only at h
      split at h
      · cases h
        exact .same hrows'
      · cases h
        exact .same hrows'
      · rename_i session hok
        cases h
        obtain ⟨hkey, hst, hsame, hnodes⟩ := process_job_claim_committed hok
        refine Sys.Logs.update (.inr ⟨rows, hrows, ?_⟩) hrows'
        rw [commit_of_sameButNodes hsame]
        exact .of_set (process_job_claim_writes hok) rfl rfl hnodes (.start hst rfl rfl)
  · cases h

/-- A completion: one that comes too late or raises adds nothing, and one that is
committed adds what [`ExecutionRows.Adds.complete`] says. -/
theorem complete_logs {t : ℕ} {result : ExecutorResult} (ht : s.Typed env)
    (h : s.complete env t result = some s') (hrows' : s'.executions e = some rows') :
    s.Logs e rows' := by
  unfold Sys.complete at h
  split at h
  · rename_i m context execution hphase
    split at h
    · cases h
      exact .same hrows'
    · rename_i rows hrows
      split at h
      · cases h
        exact .same hrows'
      · rename_i d node_def hlookup
        dsimp only at h
        split at h
        · cases h
          exact .same hrows'
        · cases h
          exact .same hrows'
        · rename_i session pubs hok
          cases h
          obtain ⟨d', hd⟩ := ht.rows _ _ hrows
          obtain ⟨rfl, -⟩ := hd.lookup hlookup
          obtain ⟨hsteps, -, hdone⟩ := process_job_complete_committed (by
            intro c _ p hp
            rw [hd.2.2]
            exact hd.wellFormed.parent_mem hp) hok
          refine Sys.Logs.update (.inr ⟨rows, hrows, ?_⟩) hrows'
          exact .complete hok hdone rfl (commit_nodes_of_loaded hsteps.sameFrame rfl)
  · cases h

/-- A recovery with its claim. The recovery has an entry of its own, which the story reads
without moving on, and the claim writes that the node has been started. -/
theorem recover_claim_logs {t m : ℕ} (h : s.recover_claim t m = some s')
    (hrows' : s'.executions e = some rows') : s.Logs e rows' := by
  unfold Sys.recover_claim at h
  split at h
  · rename_i entry hidle hentry
    split at h
    · cases h
      exact .same hrows'
    · rename_i rows hrows
      dsimp only at h
      split at h
      · cases h
        exact .same hrows'
      · -- the node is terminal, and the recovery is logged
        rename_i session hterm
        cases h
        obtain ⟨hkey, hst, rfl⟩ := process_recovered_job_terminal hterm
        refine Sys.Logs.update (.inr ⟨rows, hrows, ?_⟩) hrows'
        rw [commit_of_sameButNodes worker_recovered_job_same]
        refine .of_writes (process_recovered_job_writes (.inl hterm)) rfl rfl
          (.recover ?_ rfl rfl) fun _ _ => .same rfl rfl
        intro hrun
        simp [hrun, ExecutionRows.load, TERMINAL_NODE_STATUSES] at hst
      · rename_i session hproc
        obtain ⟨hkey, hnt, hsame, hnodes⟩ := process_recovered_job_proceed hproc
        have hwrites := process_recovered_job_writes (.inr hproc)
        have hrow : session.nodes.row entry.job.node_id
            = (rows.nodes.row entry.job.node_id).revert := by
          rw [hnodes, Table.row_set_self]
          rfl
        split at h
        · -- a row that is not terminal is not refused
          rename_i hret
          have hterm := (process_job_claim_returned hret).resolve_left (by rw [hnodes]; simpa)
          rw [hrow] at hterm
          unfold NodeExecution.revert at hterm
          split at hterm
          · simp [TERMINAL_NODE_STATUSES] at hterm
          · exact absurd hterm hnt
        · rename_i hraised
          cases h
          obtain ⟨-, -, hnq⟩ := process_job_claim_raised hraised
          rw [hrow] at hnq
          have hrun : (rows.nodes.row entry.job.node_id).status ≠ .RUNNING := by
            intro hrun
            rw [NodeExecution.revert, if_pos hrun] at hnq
            exact hnq rfl
          refine Sys.Logs.update (.inr ⟨rows, hrows, ?_⟩) hrows'
          rw [commit_of_revert hkey hsame]
          refine .of_set hwrites rfl rfl hnodes ?_
          change Line _ (rows.nodes.row entry.job.node_id).revert _
          rw [NodeExecution.revert_of_ne hrun]
          exact .recover hrun rfl rfl
        · rename_i session' hok
          cases h
          obtain ⟨hkey', hq, hsame', hnodes'⟩ := process_job_claim_committed hok
          refine Sys.Logs.update (.inr ⟨rows, hrows, ?_⟩) hrows'
          rw [commit_of_revert hkey (hsame.trans hsame')]
          have hnow : session.now = s.clock := hsame.steps.sameFrame.now
          have hset : session'.nodes = rows.nodes.set entry.job.node_id
              ((rows.nodes.row entry.job.node_id).enter .RUNNING s.clock) := by
            rw [hnodes', hrow, hnodes, hnow, NodeExecution.revert_enter_running]
            exact Table.set_set _ _ _ _
          refine .of_set (hwrites.trans (process_job_claim_writes hok)) rfl rfl hset
            (.restart ?_ rfl rfl)
          -- a row that recovery has left QUEUED was QUEUED or RUNNING
          rw [hrow] at hq
          unfold NodeExecution.revert at hq
          split at hq
          · rename_i hrun
            exact .inr hrun
          · exact .inl hq
  · cases h

/-- The actions that write log rows or move a node. -/
def Action.narrates : Action → Bool
  | .start .. => true
  | .retry .. => true
  | .claim .. => true
  | .recover_claim .. => true
  | .complete .. => true
  | _ => false

/-- The other actions write no more than message ids. -/
theorem Effect.logs_of_quiet (h : Effect env s a s') (ha : a.atomic = true)
    (hquiet : a.narrates = false) (hrows' : s'.executions e = some rows') : s.Logs e rows' := by
  cases h with
  | start => cases hquiet
  | retry => cases hquiet
  | complete => cases hquiet
  | claim hclaim => rcases hclaim with ⟨rfl, -⟩ | ⟨rfl, -⟩ <;> cases hquiet
  | discard_logged hrec =>
      rcases hrec with rfl | rfl
      · cases ha
      · cases hquiet
  | recover_raised => cases hquiet
  | recover => cases ha
  | reclaim => cases ha
  | @delete e₀ owner =>
      by_cases he : e = e₀
      · subst he
        simp at hrows'
      · simp only [Function.update_of_ne he] at hrows'
        exact .same hrows'
  | @finish t e₀ msg sent events rows htask hrows =>
      have hadds : rows.Adds { rows with nodes := Sys.set_message_ids rows.nodes sent } := by
        refine .quiet rfl fun n => ?_
        obtain ⟨id, hrow⟩ := row_set_message_ids rows.nodes sent n
        rw [hrow]
        exact ⟨rfl, rfl⟩
      exact Sys.Logs.update (.inr ⟨rows, hrows, hadds⟩) hrows'
  | _ => exact .same hrows'

/-- **What a step of the atomic alphabet adds to the log.** The steps that write log rows
have a lemma each. All others leave them as they are, and their rows move only along lines
without an entry. -/
theorem logs_of_act (ht : s.Typed env) (ha : a.atomic = true) (h : s.act env a = some s')
    (hrows' : s'.executions e = some rows') : s.Logs e rows' := by
  cases a with
  | start t vid input owner => exact start_logs h hrows'
  | retry t e₀ n owner => exact retry_logs h hrows'
  | claim t m => exact claim_logs h hrows'
  | recover_claim t m => exact recover_claim_logs h hrows'
  | complete t result => exact complete_logs ht h hrows'
  | _ => exact (effect_of_act ht h).logs_of_quiet ha rfl hrows'

end Adds

/-! ## Every reachable state -/

/-- The log of every node is a story that ends in its row. -/
def ReplayInv (s : Sys) : Prop :=
  ∀ e rows, s.executions e = some rows → ∀ n, ∃ story,
    story_of (entries_of n rows.logs) = some story ∧ story.Fits (rows.nodes.row n)

/-- **The log replays.** In every reachable state of the atomic alphabet, the log rows of
every node, read from the first one, are a story, and the row of the node is what the
story ends in. By induction along the run: a step adds to the log of each node the entries
of one line, and a line continues the story ([`Story.Fits.line`]). That nothing else is in
the log is what makes the story the whole log, not a part of it. -/
theorem log_replays (env : Env) (s : Sys) (hrun : AtomicRun env Sys.init s) (e : ℕ)
    (rows : ExecutionRows) (hrows : s.executions e = some rows) (n : String) :
    ∃ story, story_of (entries_of n rows.logs) = some story ∧
      story.Fits (rows.nodes.row n) := by
  have hinv : s.Typed env ∧ ReplayInv s := by
    refine hrun.invariant (fun u => u.Typed env ∧ ReplayInv u) ⟨typed_init, ?_⟩ ?_
    · intro e rows hrows
      cases hrows
    · rintro u a v ⟨ht, hu⟩ ha hs
      refine ⟨typed_of_step ht hs, fun e rows' hrows' n => ?_⟩
      obtain ⟨w, hw, rfl⟩ := Option.map_eq_some_iff.mp hs
      rcases logs_of_act ht ha hw hrows' with hnew | ⟨rows, hrows, added, hlogs, hline⟩
      · obtain ⟨hnil, hst⟩ := hnew n
        rw [hnil]
        refine ⟨{}, rfl, ?_, Nat.zero_le _, by simp⟩
        rcases hst with hst | hst <;> rw [hst] <;> rfl
      · obtain ⟨story, hstory, hfits⟩ := hu e rows hrows n
        obtain ⟨story', hnext, hfits'⟩ := hfits.line (hline n)
        refine ⟨story', ?_, hfits'⟩
        rw [hlogs, entries_of_append, story_of, run_append]
        change (story_of (entries_of n rows.logs)).bind _ = _
        rw [hstory, Option.bind_some, hnext]
  exact hinv.2 e rows hrows n

/-- `a` of `chain` has succeeded, and its log says so. -/
theorem log_replays_chain :
    ∃ s rows story, atomic_run chain chain_run = some s ∧ s.executions 0 = some rows ∧
      (rows.nodes.row "a").status = .SUCCEEDED ∧
      story_of (entries_of "a" rows.logs) = some story ∧ story.chapter = .succeeded := by
  have ha : (atomic_run chain chain_run).bind (fun s => s.node_status 0 "a")
      = some .SUCCEEDED := by decide +kernel
  obtain ⟨s, hs, hst⟩ := Option.bind_eq_some_iff.mp ha
  obtain ⟨rows, hrows, -, hst⟩ := Sys.node_status_eq_some hst
  obtain ⟨story, hstory, hfits⟩ :=
    log_replays (env_of chain) s (atomicRun_of_run hs) 0 rows hrows "a"
  refine ⟨s, rows, story, hs, hrows, hst, hstory, ?_⟩
  have hfit := hfits.status
  rw [hst] at hfit
  revert hfit
  cases story.chapter <;> simp [Chapter.fits]

end EventFlow
