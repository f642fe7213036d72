/-
`MetricsService.get_summary`: the numbers of the dashboard.

Four of them are counted by queries over the caller's executions. [`summary_counts`]
says that they are what the caller would count in the lists that the other
endpoints return, and that no call of another key moves them. The workers are
counted over the whole table, in a loop that leaves out those that are OFFLINE or
have not been heard of for thirty seconds; [`active_workers_alive`] says which
processes these are, whatever has become of them.

Times are in microseconds.
-/
import EventFlow.Tenants
import EventFlow.WorkflowDeletion
import EventFlow.WorkerLife

set_option autoImplicit false

namespace EventFlow

open Transition

/-- `MetricsSummaryResponse`. -/
structure MetricsSummaryResponse where
  active_executions : ℕ
  queued_nodes : ℕ
  running_nodes : ℕ
  workers : ℕ
  active_workers : ℕ
  queue_depth : ℕ
  dead_letter_jobs : ℕ
deriving DecidableEq

def ACTIVE_WORKER_STATUSES : List WorkerStatus := [.IDLE, .BUSY, .STARTING]

/-- Thirty seconds. -/
def stale_after : ℕ := 30 * 1000000

/-- The worker has not been heard of for too long. -/
def WorkerRow.is_stale (worker : WorkerRow) (now : ℕ) : Bool :=
  match worker.last_heartbeat_at with
  | none => false
  | some at_time => decide (at_time + stale_after < now)

/-- The loop over the workers. -/
def count_active_workers (workers : List WorkerRow) (now : ℕ) : ℕ :=
  workers.foldl
    (fun active_workers worker =>
      if worker.status = .OFFLINE then active_workers
      else if !worker.is_stale now && decide (worker.status ∈ ACTIVE_WORKER_STATUSES) then
        active_workers + 1
      else active_workers)
    0

namespace Tables

variable (s : Tables)

/-- The executions of a key. -/
def owned_executions (owner_api_key_id : ℕ) : List ExecutionRow :=
  s.executions.filter fun row => s.owns_workflow owner_api_key_id row.workflow_id

/-- `node_status_counts`, of a status. -/
def count_nodes (owner_api_key_id : ℕ) (status : NodeExecutionStatus) : ℕ :=
  (s.node_executions.filter fun row => s.owns_execution owner_api_key_id row.execution_id).countP
    fun row => decide (row.status = status)

/-- `MetricsService.get_summary`. -/
def get_summary (workers : List WorkerRow) (queue_depth now owner_api_key_id : ℕ) :
    MetricsSummaryResponse where
  active_executions :=
    (s.owned_executions owner_api_key_id).countP fun row => decide (row.status = .RUNNING)
  queued_nodes := s.count_nodes owner_api_key_id .QUEUED
  running_nodes := s.count_nodes owner_api_key_id .RUNNING
  workers := workers.length
  active_workers := count_active_workers workers now
  queue_depth := queue_depth
  dead_letter_jobs := (s.owned_jobs owner_api_key_id).countP fun job => job.resolved_at.isNone

end Tables

/-! ## What the caller can count -/

section Counts

variable {s : Tables} {key : ℕ}

theorem paged_all {α : Type} (env : ServiceEnv) {limit : ℕ} {rows : List α}
    (hlimit : rows.length ≤ limit) (hmax : limit ≤ env.int_max) :
    paged env limit 0 rows = .ok rows := by
  unfold paged
  rw [if_neg (by omega), List.drop_zero, List.take_of_length_le hlimit]

/-- An execution of the key is one of its executions. -/
theorem owns_execution_iff {e : ℕ} :
    s.owns_execution key e = true ↔ e ∈ (s.owned_executions key).map ExecutionRow.id := by
  rw [owns_execution_eq, List.any_eq_true, List.mem_map]
  simp only [decide_eq_true_eq]
  rfl

/-- The nodes of an execution of the key, by their status. -/
theorem countP_get_node_executions {row : ExecutionRow} (hrow : row ∈ s.owned_executions key)
    (status : NodeExecutionStatus) :
    (s.get_node_executions row.id key).countP (fun dto => decide (dto.status = status.name))
      = (s.node_executions.filter fun node => decide (node.execution_id = row.id)).countP
          fun node => decide (node.status = status) := by
  obtain ⟨hmem, howns⟩ := List.mem_filter.mp hrow
  have hfind : s.find_execution key row.id ≠ none := by
    intro hnone
    have hnot := List.find?_eq_none.mp hnone row hmem
    rw [howns] at hnot
    exact hnot (by simp)
  obtain ⟨found, hfound⟩ := Option.ne_none_iff_exists'.mp hfind
  unfold Tables.get_node_executions
  rw [hfound, List.countP_map]
  refine List.countP_congr fun node _ => ?_
  have hname : node.status.name = status.name ↔ node.status = status :=
    ⟨fun h => by revert h; cases node.status <;> cases status <;> decide, congrArg _⟩
  rw [Function.comp_apply, decide_eq_true_eq, decide_eq_true_eq]
  exact hname

/-- The nodes of all executions of the key, execution by execution. -/
theorem sum_get_node_executions (hinv : TablesInv s) (status : NodeExecutionStatus) :
    ((s.owned_executions key).map fun row => (s.get_node_executions row.id key).countP
        fun dto => decide (dto.status = status.name)).sum
      = s.count_nodes key status := by
  have hnodup : ((s.owned_executions key).map ExecutionRow.id).Nodup :=
    Selection.nodup_key_filter hinv.execution_ids _
  have hgroups := @Selection.sum_countP_key _ _ (fun node => decide (node.status = status))
    s.node_executions _ NodeExecutionRow.execution_id _ hnodup
  rw [List.map_map] at hgroups
  rw [List.map_congr_left fun row hrow => countP_get_node_executions hrow status]
  refine hgroups.trans ?_
  unfold Tables.count_nodes
  congr 1
  refine List.filter_congr fun node _ => ?_
  rw [Bool.eq_iff_iff, owns_execution_iff, decide_eq_true_eq]

/-- What the key owns decides its numbers. -/
theorem get_summary_owned (s : Tables) (workers : List WorkerRow) (queue_depth now key : ℕ) :
    (s.owned key).get_summary workers queue_depth now key
      = s.get_summary workers queue_depth now key := by
  have hexecutions : (s.owned key).owned_executions key = s.owned_executions key := by
    unfold Tables.owned_executions
    rw [owned_owns_workflow]
    exact Selection.filter_filter fun _ _ h => h
  have hnodes : ∀ status, (s.owned key).count_nodes key status = s.count_nodes key status := by
    intro status
    unfold Tables.count_nodes
    rw [owned_owns_execution]
    exact congrArg (List.countP _) (Selection.filter_filter fun _ _ h => h)
  unfold Tables.get_summary
  rw [hexecutions, hnodes, hnodes, owned_owned_jobs]

/-- **The numbers of the dashboard.** The executions that are active, the nodes
that are queued and that run, and the dead letters that are open are as many as
there are in the lists that the endpoints return to the caller, if these are taken
whole: the limit of the page is no smaller than the number of the caller's rows, and
one that the driver can bind. No call of another key changes a number.

The two sides select the same rows in two ways. The dashboard joins all nodes with the
caller's workflows, the endpoints go execution by execution; the ids of the executions
are distinct, so the sum over the groups is the count over all
([`sum_get_node_executions`]). That the calls of others change nothing is not a new
argument: the numbers are a function of what the key owns ([`get_summary_owned`]), and
that is what such a call leaves alone. -/
theorem summary_counts (env : ServiceEnv) (s : Tables) (hreach : s.Reachable env)
    (workers : List WorkerRow) (queue_depth now key : ℕ) :
    (∀ limit, (s.owned_executions key).length ≤ limit → limit ≤ env.int_max → ∃ page,
      s.list_executions env key (some "RUNNING") limit 0 = .ok page ∧
      page.length = (s.get_summary workers queue_depth now key).active_executions) ∧
    (((s.owned_executions key).map fun row => (s.get_node_executions row.id key).countP
        fun dto => decide (dto.status = "QUEUED")).sum
      = (s.get_summary workers queue_depth now key).queued_nodes ∧
      ((s.owned_executions key).map fun row => (s.get_node_executions row.id key).countP
        fun dto => decide (dto.status = "RUNNING")).sum
      = (s.get_summary workers queue_depth now key).running_nodes) ∧
    (∀ limit, (s.owned_jobs key).length ≤ limit → limit ≤ env.int_max → ∃ page,
      s.list_dlq_jobs env key limit 0 = .ok page ∧
      page.countP (fun job => job.resolved_at.isNone)
        = (s.get_summary workers queue_depth now key).dead_letter_jobs) ∧
    ∀ (other : ℕ) (c : TenantCall), other ≠ key →
      (s.call env other c).get_summary workers queue_depth now key
        = s.get_summary workers queue_depth now key := by
  have hinv : TablesInv s := hreach.inv
  refine ⟨fun limit hlimit hmax => ?_, ⟨sum_get_node_executions hinv .QUEUED,
    sum_get_node_executions hinv .RUNNING⟩, fun limit hlimit hmax => ?_, fun other c hne => ?_⟩
  · -- the rows of the list are those of the key that are RUNNING
    have hrows : (s.executions.filter fun row => s.owns_workflow key row.workflow_id &&
        (some ExecutionStatus.RUNNING).all fun st => decide (row.status = st))
        = (s.owned_executions key).filter fun row => decide (row.status = .RUNNING) := by
      rw [Tables.owned_executions, List.filter_filter]
      refine List.filter_congr fun row _ => ?_
      rw [Bool.and_comm, Option.all_some]
    have hlength : (((s.owned_executions key).filter fun row =>
        decide (row.status = .RUNNING)).insertionSort fun p q =>
          desc_nulls_last p.started_at q.started_at = true).length ≤ limit := by
      rw [List.length_insertionSort]
      exact (List.length_filter_le _ _).trans hlimit
    unfold Tables.list_executions
    rw [show Tables.status_enum (some "RUNNING") = .ok (some .RUNNING) from rfl]
    dsimp only
    rw [hrows, paged_all env hlength hmax]
    refine ⟨_, rfl, ?_⟩
    rw [List.length_map, List.length_insertionSort]
    exact List.countP_eq_length_filter.symm
  · have hlength : ((s.owned_jobs key).insertionSort fun p q =>
        q.created_at ≤ p.created_at).length ≤ limit := by
      rw [List.length_insertionSort]
      exact hlimit
    exact ⟨_, paged_all env hlength hmax, (List.perm_insertionSort _ _).countP_eq _⟩
  · rw [← get_summary_owned, (call_effect env s other c).owned hinv hne.symm, get_summary_owned]

/-- A workflow of the key 1 has been started: the dashboard counts its first node,
and goes on to do so when another key has deleted what it likes. -/
theorem summary_counts_started :
    (started_tables.get_summary [] 1 0 1).queued_nodes = 1 ∧
    ((started_tables.owned_executions 1).map fun row =>
      (started_tables.get_node_executions row.id 1).countP
        fun dto => decide (dto.status = "QUEUED")).sum = 1 ∧
    ((started_tables.call any_services 2 (.delete_execution 0)).get_summary [] 1 0 1).queued_nodes
      = 1 := by
  have hreach : started_tables.Reachable any_services :=
    .tail (.call 1 (.start_execution 0 []
      { execution_id := 0, node_pk := String.length, log_pk := id, now := 1
        publish := fun _ => some none })) chain_tables_reachable trivial rfl
  have hone : (started_tables.get_summary [] 1 0 1).queued_nodes = 1 := by decide +kernel
  obtain ⟨-, ⟨hqueued, -⟩, -, hothers⟩ := summary_counts any_services started_tables hreach [] 1 0 1
  refine ⟨hone, hqueued.trans hone, ?_⟩
  rw [hothers 2 (.delete_execution 0) (by decide), hone]

end Counts

/-! ## Which workers are active -/

section Workers

variable {s : Fleet}

theorem count_active_workers_eq (workers : List WorkerRow) (now : ℕ) :
    count_active_workers workers now = workers.countP fun worker =>
      !decide (worker.status = .OFFLINE) && !worker.is_stale now &&
        decide (worker.status ∈ ACTIVE_WORKER_STATUSES) := by
  have hfold : ∀ n, workers.foldl
      (fun active_workers worker =>
        if worker.status = .OFFLINE then active_workers
        else if !worker.is_stale now && decide (worker.status ∈ ACTIVE_WORKER_STATUSES) then
          active_workers + 1
        else active_workers) n
      = n + workers.countP fun worker =>
          !decide (worker.status = .OFFLINE) && !worker.is_stale now &&
            decide (worker.status ∈ ACTIVE_WORKER_STATUSES) := by
    induction workers with
    | nil => exact fun _ => rfl
    | cons worker workers ih =>
        intro n
        rw [List.foldl_cons, ih, List.countP_cons]
        by_cases hoff : worker.status = .OFFLINE
        · simp [hoff]
        · simp only [hoff, if_false, decide_false, Bool.not_false, Bool.true_and]
          split <;> omega
  rw [count_active_workers, hfold, Nat.zero_add]

/-- A row is counted as long as its process has been heard of and has not come to
its end. -/
theorem WorkerProcess.Shown.active_iff {p : WorkerProcess} {row : WorkerRow} (h : p.Shown row)
    (now : ℕ) :
    (!decide (row.status = .OFFLINE) && !row.is_stale now &&
        decide (row.status ∈ ACTIVE_WORKER_STATUSES))
      = decide (p.stage ≠ .stopped true ∧ now ≤ p.beat_at + stale_after) := by
  have hstale : row.is_stale now = decide (p.beat_at + stale_after < now) := by
    unfold WorkerRow.is_stale
    rw [h.beat]
  have hactive : row.status ≠ .OFFLINE → row.status ∈ ACTIVE_WORKER_STATUSES := by
    intro hoff
    have hstopping := h.not_stopping
    revert hoff hstopping
    cases row.status <;> decide
  rw [hstale, Bool.eq_iff_iff]
  simp only [Bool.and_eq_true, Bool.not_eq_true', decide_eq_true_eq, decide_eq_false_iff_not]
  rw [Ne, ← h.offline_iff, not_lt]
  exact ⟨fun hrow => hrow.1, fun hp => ⟨hp, hactive hp.1⟩⟩

/-- **Which workers are active.** Counted at a time are the processes that have not come
to their end and were heard of in the thirty seconds before it; a process that has ended
or was killed more than thirty seconds before is not among them.

The loop counts rows, the statement processes. In a run in which every registration draws
a fresh name there is one row for each process, in the same order ([`FleetInv`]), so the
two counts are compared row by row: the row says OFFLINE exactly if its process has marked
it, and `last_heartbeat_at` is the last beat of the process
([`WorkerProcess.Shown.active_iff`]). The bound follows because nothing beats after its
end. -/
theorem active_workers_alive (start : ℕ) (s : Fleet) (hrun : Fleet.Run { now := start } s)
    (db : Tables) (queue_depth now key : ℕ) :
    (db.get_summary s.workers queue_depth now key).workers = s.processes.length ∧
    (db.get_summary s.workers queue_depth now key).active_workers
      = s.processes.countP (fun p =>
          decide (p.stage ≠ .stopped true ∧ now ≤ p.beat_at + stale_after)) ∧
    (db.get_summary s.workers queue_depth now key).active_workers
      ≤ s.processes.countP fun p => p.ended_at.all fun t => decide (now ≤ t + stale_after) := by
  have hinv := fleetInv_of_run hrun
  -- the rows and the processes, one by one
  have hrows : s.workers.map (fun row =>
        !decide (row.status = .OFFLINE) && !row.is_stale now &&
          decide (row.status ∈ ACTIVE_WORKER_STATUSES))
      = s.processes.map fun p =>
          decide (p.stage ≠ .stopped true ∧ now ≤ p.beat_at + stale_after) := by
    refine List.ext_getElem? fun k => ?_
    rw [List.getElem?_map, List.getElem?_map]
    cases hp : s.processes[k]? with
    | none =>
        rw [List.getElem?_eq_none_iff, ← hinv.length] at hp
        rw [List.getElem?_eq_none hp]
        rfl
    | some p =>
        obtain ⟨row, hrow, -, -, hshown⟩ := hinv.rows k p hp
        rw [hrow, Option.map_some, Option.map_some, hshown.active_iff]
  have hcount : (db.get_summary s.workers queue_depth now key).active_workers
      = s.processes.countP fun p =>
          decide (p.stage ≠ .stopped true ∧ now ≤ p.beat_at + stale_after) := by
    have hid := congrArg (List.countP id) hrows
    rw [List.countP_map, List.countP_map] at hid
    exact (count_active_workers_eq _ _).trans hid
  refine ⟨hinv.length, hcount, ?_⟩
  rw [hcount]
  refine List.countP_mono_left fun p hp hactive => ?_
  obtain ⟨-, hheard⟩ := of_decide_eq_true hactive
  obtain ⟨k, hk⟩ := List.mem_iff_getElem?.mp hp
  obtain ⟨-, -, -, hok, -⟩ := hinv.rows k p hk
  rw [Option.all_eq_true]
  intro t ht
  rw [decide_eq_true_eq]
  exact hheard.trans (Nat.add_le_add_right (hok.ended_after t ht) _)

/-- A worker that was killed is counted for thirty seconds, and then no more. -/
theorem active_workers_alive_killed : ∃ s : Fleet, s.processes.map (·.ended_at) = [some 0] ∧
    (({} : Tables).get_summary s.workers 0 stale_after 0).active_workers = 1 ∧
    ∀ now, stale_after < now →
      (({} : Tables).get_summary s.workers 0 now 0).active_workers = 0 := by
  have hkilled : (run (restrict Fleet.step Fleet.draws_fresh) {}
      [.start "worker-a" "host", .register 0, .act 0 .kill]).map
        (fun s => (s.processes.map (·.ended_at),
          (({} : Tables).get_summary s.workers 0 stale_after 0).active_workers))
      = some ([some 0], 1) := by
    decide +kernel
  obtain ⟨s, hs, hfacts⟩ := Option.map_eq_some_iff.mp hkilled
  obtain ⟨hended, hone⟩ := Prod.mk.inj hfacts
  refine ⟨s, hended, hone, fun now hnow => ?_⟩
  obtain ⟨-, -, hle⟩ := active_workers_alive 0 s (reaches_of_run hs) {} 0 now 0
  refine Nat.eq_zero_of_le_zero (hle.trans_eq (List.countP_eq_zero.mpr fun p hp halive => ?_))
  have hmem := List.mem_map_of_mem (f := fun p : WorkerProcess => p.ended_at) hp
  rw [hended, List.mem_singleton] at hmem
  rw [hmem, Option.all_some, decide_eq_true_eq] at halive
  omega

end Workers

end EventFlow
