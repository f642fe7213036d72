/-
Tenant isolation: what an API key sees of the tables, and what its calls leave
of everybody else's rows.

`Tables.owned` cuts the tables down to one key: its workflows, their versions,
the executions of these workflows, and the nodes, logs and dead letters of these
executions. Every read answers the same on the whole tables and on that part
([`SameAnswers.owned`]), so it cannot depend on anything else.

For the writes it has to be known that the rows a method reaches by an id are
the caller's. Most methods check the owner of a row and then write by primary
key. `retry_node` resolves the dead letters that name its node, and
`delete_execution` deletes the logs that name its nodes, whatever execution the
dead letter or the log itself names: that this is the same execution is an
invariant of the tables ([`TablesInv`]).
-/
import EventFlow.Versions
import EventFlow.Library.Selection

set_option autoImplicit false

namespace EventFlow

open Transition

/-! ## The part of one key -/

/-- The rows of one key. -/
def Tables.owned (s : Tables) (key : ℕ) : Tables where
  workflows := s.workflows.filter fun w => decide (w.owner_api_key_id = key)
  workflow_versions := s.workflow_versions.filter fun v => s.owns_workflow key v.workflow_id
  executions := s.executions.filter fun row => s.owns_workflow key row.workflow_id
  node_executions := s.node_executions.filter fun row => s.owns_execution key row.execution_id
  execution_logs := s.execution_logs.filter fun row => s.owns_execution key row.execution_id
  dead_letter_jobs := s.dead_letter_jobs.filter fun job => s.owns_execution key job.execution_id

/-- Every read by `key` answers the same on both. -/
structure SameAnswers (env : ServiceEnv) (key : ℕ) (s t : Tables) : Prop where
  list_workflows : ∀ limit offset,
    s.list_workflows env key limit offset = t.list_workflows env key limit offset
  get_workflow : ∀ w, s.get_workflow w key = t.get_workflow w key
  list_executions : ∀ status limit offset,
    s.list_executions env key status limit offset = t.list_executions env key status limit offset
  get_execution : ∀ e, s.get_execution e key = t.get_execution e key
  get_node_executions : ∀ e, s.get_node_executions e key = t.get_node_executions e key
  list_logs : ∀ e limit offset,
    s.list_logs env e key limit offset = t.list_logs env e key limit offset
  get_timeline : ∀ e limit, s.get_timeline env e key limit = t.get_timeline env e key limit
  list_dlq_jobs : ∀ limit offset,
    s.list_dlq_jobs env key limit offset = t.list_dlq_jobs env key limit offset
  get_dlq_job : ∀ id, s.get_dlq_job id key = t.get_dlq_job id key

section Reads

variable (s : Tables) (key : ℕ)

theorem owns_workflow_eq (w : ℕ) : s.owns_workflow key w
    = (s.workflows.filter fun row => decide (row.owner_api_key_id = key)).any
        fun row => decide (row.id = w) := by
  unfold Tables.owns_workflow
  rw [List.any_filter]
  congr 1
  funext row
  rw [Bool.decide_and, Bool.and_comm]

theorem owns_execution_eq (e : ℕ) : s.owns_execution key e
    = (s.executions.filter fun row => s.owns_workflow key row.workflow_id).any
        fun row => decide (row.id = e) := by
  unfold Tables.owns_execution
  rw [List.any_filter]
  congr 1
  funext row
  rw [Bool.and_comm]

theorem owned_owns_workflow : (s.owned key).owns_workflow key = s.owns_workflow key := by
  funext w
  rw [owns_workflow_eq, owns_workflow_eq]
  congr 1
  exact Selection.filter_filter fun _ _ h => h

theorem owned_owns_execution : (s.owned key).owns_execution key = s.owns_execution key := by
  funext e
  rw [owns_execution_eq, owns_execution_eq, owned_owns_workflow]
  congr 1
  exact Selection.filter_filter fun _ _ h => h

theorem owned_find_execution (e : ℕ) :
    (s.owned key).find_execution key e = s.find_execution key e := by
  unfold Tables.find_execution
  rw [owned_owns_workflow]
  show List.find? _ (s.executions.filter _) = _
  rw [List.find?_filter]
  congr 1
  funext row
  cases s.owns_workflow key row.workflow_id
  · simp
  · simp

/-- The versions of a workflow of the key are all in its part. -/
theorem owned_versions {w : WorkflowRow} (hw : w ∈ s.workflows)
    (howner : w.owner_api_key_id = key) :
    (s.owned key).workflow_versions.filter (fun v => decide (v.workflow_id = w.id))
      = s.workflow_versions.filter fun v => decide (v.workflow_id = w.id) := by
  apply Selection.filter_filter
  intro v _ hv
  rw [decide_eq_true_eq] at hv
  rw [hv]
  exact List.any_eq_true.mpr ⟨w, hw, decide_eq_true ⟨rfl, howner⟩⟩

/-- Whatever is found under an execution of the key is in its part. -/
theorem filter_owned_execution {α : Type} {l : List α} (execution_id : α → ℕ) {e : ℕ}
    (h : s.owns_execution key e = true) :
    (l.filter fun row => s.owns_execution key (execution_id row)).filter
        (fun row => decide (execution_id row = e))
      = l.filter fun row => decide (execution_id row = e) := by
  apply Selection.filter_filter
  intro row _ hrow
  rw [decide_eq_true_eq] at hrow
  rw [hrow]
  exact h

theorem owned_get_node_executions (e : ℕ) :
    (s.owned key).get_node_executions e key = s.get_node_executions e key := by
  unfold Tables.get_node_executions
  rw [owned_find_execution]
  cases hfind : s.find_execution key e with
  | none => rfl
  | some row =>
      dsimp only
      congr 1
      exact filter_owned_execution s key _ (owns_of_find_execution s key hfind)

theorem owned_check_ownership (e : ℕ) :
    (s.owned key).check_ownership e key = s.check_ownership e key := by
  unfold Tables.check_ownership
  rw [owned_find_execution]

theorem owned_logs_of {e : ℕ} (h : s.check_ownership e key = .ok ()) :
    (s.owned key).logs_of e = s.logs_of e := by
  unfold Tables.check_ownership at h
  split at h
  · cases h
  · rename_i row hfind
    unfold Tables.logs_of
    congr 1
    exact filter_owned_execution s key _ (owns_of_find_execution s key hfind)

theorem owned_owned_jobs : (s.owned key).owned_jobs key = s.owned_jobs key := by
  unfold Tables.owned_jobs
  rw [owned_owns_execution]
  exact Selection.filter_filter fun _ _ h => h

theorem owned_list_workflows (env : ServiceEnv) (limit offset : ℕ) :
    (s.owned key).list_workflows env key limit offset
      = s.list_workflows env key limit offset := by
  unfold Tables.list_workflows
  have hrows : (s.owned key).workflows.filter (fun w => decide (w.owner_api_key_id = key))
      = s.workflows.filter fun w => decide (w.owner_api_key_id = key) :=
    Selection.filter_filter fun _ _ h => h
  dsimp only
  rw [hrows]
  congr 2
  apply List.map_congr_left
  intro w hw
  -- the latest number is taken over versions that are the key's as well
  obtain ⟨hmem, howner⟩ := List.mem_filter.mp hw
  rw [owned_versions s key hmem (of_decide_eq_true howner)]

theorem owned_get_workflow (w : ℕ) :
    (s.owned key).get_workflow w key = s.get_workflow w key := by
  unfold Tables.get_workflow
  have hfind : (s.owned key).workflows.find?
        (fun row => decide (row.id = w ∧ row.owner_api_key_id = key))
      = s.workflows.find? fun row => decide (row.id = w ∧ row.owner_api_key_id = key) := by
    show List.find? _ (s.workflows.filter _) = _
    rw [List.find?_filter]
    congr 1
    funext row
    by_cases howner : row.owner_api_key_id = key
    · simp [howner]
    · simp [howner]
  rw [hfind]
  cases hrow : s.workflows.find? fun row => decide (row.id = w ∧ row.owner_api_key_id = key) with
  | none => rfl
  | some row =>
      have howner := List.find?_some hrow
      rw [decide_eq_true_eq] at howner
      rw [Option.map_some, Option.map_some,
        owned_versions s key (List.mem_of_find?_eq_some hrow) howner.2]

theorem owned_list_executions (env : ServiceEnv) (status : Option String) (limit offset : ℕ) :
    (s.owned key).list_executions env key status limit offset
      = s.list_executions env key status limit offset := by
  unfold Tables.list_executions
  cases Tables.status_enum status with
  | error err => rfl
  | ok st =>
      dsimp only
      rw [owned_owns_workflow]
      congr 3
      apply Selection.filter_filter
      intro row _ hrow
      exact (Bool.and_eq_true_iff.mp hrow).1

/-- **The part of a key answers all its reads.** A read either selects by owner, or checks
the owner of a row and then reads what hangs on it. In both cases the rows that it looks
at are those that the part has kept. -/
theorem SameAnswers.owned (env : ServiceEnv) : SameAnswers env key (s.owned key) s where
  list_workflows := owned_list_workflows s key env
  get_workflow := owned_get_workflow s key
  list_executions := owned_list_executions s key env
  get_execution := by
    intro e
    unfold Tables.get_execution
    rw [owned_find_execution, owned_get_node_executions]
  get_node_executions := owned_get_node_executions s key
  list_logs := by
    intro e limit offset
    unfold Tables.list_logs
    rw [owned_check_ownership]
    cases hcheck : s.check_ownership e key with
    | error err => rfl
    | ok _ => rw [owned_logs_of s key hcheck]
  get_timeline := by
    intro e limit
    unfold Tables.get_timeline
    rw [owned_check_ownership]
    cases hcheck : s.check_ownership e key with
    | error err => rfl
    | ok _ => rw [owned_logs_of s key hcheck]
  list_dlq_jobs := by
    intro limit offset
    unfold Tables.list_dlq_jobs
    rw [owned_owned_jobs]
  get_dlq_job := by
    intro id
    unfold Tables.get_dlq_job
    rw [owned_owned_jobs]

end Reads

/-- Tables with the same part of a key answer the same. -/
theorem SameAnswers.of_owned {s t : Tables} {key : ℕ} (env : ServiceEnv)
    (h : s.owned key = t.owned key) : SameAnswers env key s t := by
  have hs := SameAnswers.owned s key env
  have ht := SameAnswers.owned t key env
  rw [h] at hs
  constructor
  · intro limit offset
    rw [← hs.list_workflows, ht.list_workflows]
  · intro w
    rw [← hs.get_workflow, ht.get_workflow]
  · intro status limit offset
    rw [← hs.list_executions, ht.list_executions]
  · intro e
    rw [← hs.get_execution, ht.get_execution]
  · intro e
    rw [← hs.get_node_executions, ht.get_node_executions]
  · intro e limit offset
    rw [← hs.list_logs, ht.list_logs]
  · intro e limit
    rw [← hs.get_timeline, ht.get_timeline]
  · intro limit offset
    rw [← hs.list_dlq_jobs, ht.list_dlq_jobs]
  · intro id
    rw [← hs.get_dlq_job, ht.get_dlq_job]

/-! ## The rows that name a node -/

/-- The nodes with the executions they belong to. -/
def Tables.node_keys (s : Tables) : List (ℕ × ℕ) :=
  s.node_executions.map fun row => (row.id, row.execution_id)

/-- Ids are primary keys, and a log or a dead letter names a node of the
execution that it names. -/
structure TablesInv (s : Tables) : Prop where
  workflow_ids : (s.workflows.map WorkflowRow.id).Nodup
  execution_ids : (s.executions.map ExecutionRow.id).Nodup
  node_ids : (s.node_executions.map NodeExecutionRow.id).Nodup
  job_ids : (s.dead_letter_jobs.map DeadLetterJobRow.id).Nodup
  log_node : ∀ log ∈ s.execution_logs, ∀ n ∈ log.node_execution_id,
    (n, log.execution_id) ∈ s.node_keys
  job_node : ∀ job ∈ s.dead_letter_jobs, (job.node_execution_id, job.execution_id) ∈ s.node_keys

theorem insertable_nodup {stored new : List ℕ} (hstored : stored.Nodup)
    (h : insertable stored new = true) : (stored ++ new).Nodup := by
  unfold insertable at h
  rw [decide_eq_true_eq] at h
  apply List.Nodup.append hstored h.1
  intro id hid hnew
  exact h.2 id hnew hid

section Invariant

variable {env : ServiceEnv} {s t : Tables} {key other : ℕ}

/-- A node row is in one execution. -/
theorem TablesInv.execution_of_node (hinv : TablesInv s) {row : NodeExecutionRow}
    (hrow : row ∈ s.node_executions) {e : ℕ} (h : (row.id, e) ∈ s.node_keys) :
    row.execution_id = e := by
  obtain ⟨row', hrow', heq⟩ := List.mem_map.mp h
  rw [Prod.mk.injEq] at heq
  rw [← heq.2, Selection.eq_of_key hinv.node_ids hrow hrow' heq.1.symm]

/-- A dead letter that names a node is of the node's execution. -/
theorem TablesInv.execution_of_job (hinv : TablesInv s) {row : NodeExecutionRow}
    (hrow : row ∈ s.node_executions) {job : DeadLetterJobRow} (hjob : job ∈ s.dead_letter_jobs)
    (h : job.node_execution_id = row.id) : job.execution_id = row.execution_id := by
  have hnode := hinv.job_node job hjob
  rw [h] at hnode
  exact (hinv.execution_of_node hrow hnode).symm

/-- A log that names a node is of the node's execution. -/
theorem TablesInv.execution_of_log (hinv : TablesInv s) {row : NodeExecutionRow}
    (hrow : row ∈ s.node_executions) {log : ExecutionLogRow} (hlog : log ∈ s.execution_logs)
    (h : row.id ∈ log.node_execution_id) : log.execution_id = row.execution_id :=
  (hinv.execution_of_node hrow (hinv.log_node log hlog row.id h)).symm

/-- A workflow has one owner. -/
theorem TablesInv.owns_workflow_unique (hinv : TablesInv s) (hne : other ≠ key) {w : ℕ}
    (h : s.owns_workflow key w = true) : s.owns_workflow other w = false := by
  rw [Bool.eq_false_iff]
  intro hother
  obtain ⟨row, hrow, hkey⟩ := List.any_eq_true.mp h
  obtain ⟨row', hrow', hkey'⟩ := List.any_eq_true.mp hother
  rw [decide_eq_true_eq] at hkey hkey'
  have hrows := Selection.eq_of_key hinv.workflow_ids hrow hrow' (hkey.1.trans hkey'.1.symm)
  apply hne
  rw [← hkey.2, ← hkey'.2, hrows]

/-- An execution has one owner. -/
theorem TablesInv.owns_execution_unique (hinv : TablesInv s) (hne : other ≠ key) {e : ℕ}
    (h : s.owns_execution key e = true) : s.owns_execution other e = false := by
  rw [Bool.eq_false_iff]
  intro hother
  obtain ⟨row, hrow, hkey⟩ := List.any_eq_true.mp h
  obtain ⟨row', hrow', hkey'⟩ := List.any_eq_true.mp hother
  rw [Bool.and_eq_true_iff, decide_eq_true_eq] at hkey hkey'
  have hrows := Selection.eq_of_key hinv.execution_ids hrow hrow' (hkey.1.trans hkey'.1.symm)
  have hfalse := hinv.owns_workflow_unique hne hkey.2
  rw [hrows, hkey'.2] at hfalse
  cases hfalse

/-- The write of a node by its id keeps the keys of all nodes. -/
theorem TablesInv.node_keys_write (hinv : TablesInv s) {row node : NodeExecutionRow}
    (hrow : row ∈ s.node_executions)
    (hkeys : node.id = row.id ∧ node.execution_id = row.execution_id) :
    (s.node_executions.map fun other => if other.id = node.id then node else other).map
        (fun row => (row.id, row.execution_id)) = s.node_keys := by
  apply Selection.map_key_update
  intro x hx hid
  have hrows := Selection.eq_of_key hinv.node_ids hx hrow (hid.trans hkeys.1)
  rw [hkeys.1, hkeys.2, hrows]

/-- Nodes that are added, and rows rewritten under their keys, keep the keys that
were there. -/
theorem mem_node_keys_map {l new : List NodeExecutionRow}
    {publish : NodeExecutionRow → NodeExecutionRow}
    (hkeys : ∀ row, (publish row).id = row.id ∧ (publish row).execution_id = row.execution_id)
    {k : ℕ × ℕ} (hk : k ∈ l.map fun row => (row.id, row.execution_id)) :
    k ∈ ((l ++ new).map publish).map fun row => (row.id, row.execution_id) := by
  obtain ⟨row, hrow, rfl⟩ := List.mem_map.mp hk
  rw [List.map_map]
  apply List.mem_map.mpr
  refine ⟨row, List.mem_append_left _ hrow, ?_⟩
  show ((publish row).id, (publish row).execution_id) = _
  rw [(hkeys row).1, (hkeys row).2]

/-- The nodes of another execution stay when those of `e` are deleted. -/
theorem mem_node_keys_filter {l : List NodeExecutionRow} {e n e' : ℕ} (hne : e' ≠ e)
    (h : (n, e') ∈ l.map fun row => (row.id, row.execution_id)) :
    (n, e') ∈ (l.filter fun row => decide (row.execution_id ≠ e)).map
      fun row => (row.id, row.execution_id) := by
  obtain ⟨row, hrow, heq⟩ := List.mem_map.mp h
  rw [Prod.mk.injEq] at heq
  apply List.mem_map.mpr
  refine ⟨row, List.mem_filter.mpr ⟨hrow, decide_eq_true ?_⟩, Prod.ext heq.1 heq.2⟩
  rw [heq.2]
  exact hne

/-- The write of a dead letter by its id. -/
theorem mem_write_job {l : List DeadLetterJobRow} {job x : DeadLetterJobRow}
    (h : x ∈ l.map fun other => if other.id = job.id then job else other) : x = job ∨ x ∈ l := by
  obtain ⟨y, hy, rfl⟩ := List.mem_map.mp h
  split
  · exact Or.inl rfl
  · exact Or.inr hy

/-- **A call keeps the invariant.** Calls insert rows under ids that are not in use,
change rows without touching ids, and delete; a log or a dead letter that stays names a
node that stays, because a deletion takes both. -/
theorem CallEffect.inv (h : CallEffect env s key t) (hinv : TablesInv s) : TablesInv t := by
  cases h with
  | unchanged => exact hinv
  | workflow_added workflow version howner hid hversion hstored =>
      exact { hinv with workflow_ids := Selection.nodup_key_concat hinv.workflow_ids hid }
  | version_added version now howns hstored =>
      refine { hinv with workflow_ids := ?_ }
      exact Selection.nodup_key_update hinv.workflow_ids fun _ _ _ => rfl
  | workflow_deleted w howns =>
      exact { hinv with workflow_ids := Selection.nodup_key_filter hinv.workflow_ids _ }
  | execution_started execution nodes logs publish howns hid hpks hnodes hlogs hkeys hpublish =>
      refine { hinv with execution_ids := ?_, node_ids := ?_, log_node := ?_, job_node := ?_ }
      · exact Selection.nodup_key_concat hinv.execution_ids hid
      · rw [Selection.map_key_map fun row _ => (hkeys row).1, List.map_append]
        exact insertable_nodup hinv.node_ids hpks
      · -- a log of the start names no node
        intro log hlog n hn
        rcases List.mem_append.mp hlog with hold | hnew
        · exact mem_node_keys_map hkeys (hinv.log_node log hold n hn)
        · rw [(hlogs log hnew).2] at hn
          cases hn
      · intro job hjob
        exact mem_node_keys_map hkeys (hinv.job_node job hjob)
  | node_retried row node now note hrow howns hkeys =>
      have hnode_keys := hinv.node_keys_write hrow hkeys
      refine { hinv with node_ids := ?_, job_ids := ?_, log_node := ?_, job_node := ?_ }
      · exact Selection.nodup_key_update hinv.node_ids fun _ _ hid => hid.symm
      · exact Selection.nodup_key_update hinv.job_ids fun _ _ _ => rfl
      · intro log hlog n hn
        show _ ∈ List.map _ _
        rw [hnode_keys]
        exact hinv.log_node log hlog n hn
      · intro job hjob
        show _ ∈ List.map _ _
        rw [hnode_keys]
        obtain ⟨job', hjob', rfl⟩ := List.mem_map.mp hjob
        split
        · exact hinv.job_node job' hjob'
        · exact hinv.job_node job' hjob'
  -- what is left names nodes that are left
  | execution_deleted e howns =>
      refine { hinv with
        execution_ids := Selection.nodup_key_filter hinv.execution_ids _
        node_ids := Selection.nodup_key_filter hinv.node_ids _
        job_ids := Selection.nodup_key_filter hinv.job_ids _, log_node := ?_, job_node := ?_ }
      · intro log hlog n hn
        obtain ⟨hmem, hkeep⟩ := List.mem_filter.mp hlog
        rw [decide_eq_true_eq] at hkeep
        exact mem_node_keys_filter hkeep.1 (hinv.log_node log hmem n hn)
      · intro job hjob
        obtain ⟨hmem, hkeep⟩ := List.mem_filter.mp hjob
        rw [decide_eq_true_eq] at hkeep
        exact mem_node_keys_filter hkeep (hinv.job_node job hmem)
  | job_resolved row job hrow howns hkeys =>
      refine { hinv with job_ids := ?_, job_node := ?_ }
      · exact Selection.nodup_key_update hinv.job_ids fun _ _ hid => hid.symm
      · intro x hx
        rcases mem_write_job hx with rfl | hx
        · rw [hkeys.2.1, hkeys.2.2]
          exact hinv.job_node row hrow
        · exact hinv.job_node x hx

/-- A commit of a worker keeps the invariant. It may write any columns of the rows it has
loaded, but no id and no foreign key; and what it inserts names nodes among them. -/
theorem worker_write_inv {w : WorkerWrite} (h : s.worker_write w = some t) (hinv : TablesInv s) :
    TablesInv t := by
  unfold Tables.worker_write at h
  dsimp only at h
  split at h
  · rename_i hnew
    obtain ⟨hlogs, hjobs, -, hjob_pks⟩ := hnew
    cases h
    have hnode_keys : (s.node_executions.map fun row =>
          if row.execution_id = w.execution_id then { row with toNodeExecution := w.node row }
          else row).map (fun row => (row.id, row.execution_id)) = s.node_keys :=
      Selection.map_key_update fun _ _ _ => rfl
    -- what a worker adds names nodes that it has loaded
    have hnamed : ∀ n ∈ (s.node_executions.filter fun row =>
          decide (row.execution_id = w.execution_id)).map NodeExecutionRow.id,
        (n, w.execution_id) ∈ s.node_keys := by
      intro n hn
      obtain ⟨row, hrow, rfl⟩ := List.mem_map.mp hn
      obtain ⟨hmem, he⟩ := List.mem_filter.mp hrow
      rw [decide_eq_true_eq] at he
      exact List.mem_map.mpr ⟨row, hmem, by rw [he]⟩
    refine { hinv with
      execution_ids := ?_, node_ids := ?_, job_ids := ?_, log_node := ?_, job_node := ?_ }
    · exact Selection.nodup_key_update hinv.execution_ids fun _ _ _ => rfl
    · exact Selection.nodup_key_update hinv.node_ids fun _ _ _ => rfl
    · rw [List.map_append]
      exact insertable_nodup hinv.job_ids hjob_pks
    · intro log hlog n hn
      show _ ∈ List.map _ _
      rw [hnode_keys]
      rcases List.mem_append.mp hlog with hold | hnew
      · exact hinv.log_node log hold n hn
      · rw [(hlogs log hnew).1]
        exact hnamed n ((hlogs log hnew).2 n hn)
    · intro job hjob
      show _ ∈ List.map _ _
      rw [hnode_keys]
      rcases List.mem_append.mp hjob with hold | hnew
      · exact hinv.job_node job hold
      · rw [(hjobs job hnew).1]
        exact hnamed _ (hjobs job hnew).2
  · cases h

end Invariant

/-- **The invariant holds in every state that is reached.** -/
theorem Tables.Reachable.inv {env : ServiceEnv} {s : Tables} (h : s.Reachable env) :
    TablesInv s := by
  apply Reaches.invariant TablesInv h
  · constructor <;> simp
  · intro u a v hinv _ hstep
    cases a with
    | call key c =>
        cases hstep
        exact (call_effect env u key c).inv hinv
    | worker w => exact worker_write_inv hstep hinv

/-! ## The part of another key -/

section Frame

variable {env : ServiceEnv} {s t : Tables} {key other : ℕ}

/-- The part of a key is kept if its rows are, in every table; whose a row is
may be asked of the tables before. -/
theorem owned_congr
    (hworkflows : t.workflows.filter (fun w => decide (w.owner_api_key_id = key))
      = s.workflows.filter fun w => decide (w.owner_api_key_id = key))
    (hversions : t.workflow_versions.filter (fun v => s.owns_workflow key v.workflow_id)
      = s.workflow_versions.filter fun v => s.owns_workflow key v.workflow_id)
    (hexecutions : t.executions.filter (fun row => s.owns_workflow key row.workflow_id)
      = s.executions.filter fun row => s.owns_workflow key row.workflow_id)
    (hnodes : t.node_executions.filter (fun row => s.owns_execution key row.execution_id)
      = s.node_executions.filter fun row => s.owns_execution key row.execution_id)
    (hlogs : t.execution_logs.filter (fun row => s.owns_execution key row.execution_id)
      = s.execution_logs.filter fun row => s.owns_execution key row.execution_id)
    (hjobs : t.dead_letter_jobs.filter (fun job => s.owns_execution key job.execution_id)
      = s.dead_letter_jobs.filter fun job => s.owns_execution key job.execution_id) :
    t.owned key = s.owned key := by
  have howns : t.owns_workflow key = s.owns_workflow key := by
    funext w
    rw [owns_workflow_eq, owns_workflow_eq, hworkflows]
  have howns_execution : t.owns_execution key = s.owns_execution key := by
    funext e
    rw [owns_execution_eq, owns_execution_eq, howns, hexecutions]
  unfold Tables.owned
  rw [howns, howns_execution, hworkflows, hversions, hexecutions, hnodes, hlogs, hjobs]

/-- No row is under an id that is not there. -/
theorem owns_execution_of_not_mem {e : ℕ} (h : e ∉ s.executions.map ExecutionRow.id) :
    s.owns_execution key e = false := by
  rw [Bool.eq_false_iff]
  intro howns
  obtain ⟨row, hrow, hkey⟩ := List.any_eq_true.mp howns
  rw [Bool.and_eq_true_iff, decide_eq_true_eq] at hkey
  exact h (List.mem_map.mpr ⟨row, hrow, hkey.1⟩)

theorem owns_workflow_of_not_mem {w : ℕ} (h : w ∉ s.workflows.map WorkflowRow.id) :
    s.owns_workflow key w = false := by
  rw [Bool.eq_false_iff]
  intro howns
  obtain ⟨row, hrow, hkey⟩ := List.any_eq_true.mp howns
  rw [decide_eq_true_eq] at hkey
  exact h (List.mem_map.mpr ⟨row, hrow, hkey.1⟩)

/-- A workflow row that is not of `other` is not selected for it. -/
theorem TablesInv.owner_ne (hinv : TablesInv s) (hne : other ≠ key) {row : WorkflowRow}
    (hrow : row ∈ s.workflows) (h : s.owns_workflow key row.id = true) :
    decide (row.owner_api_key_id = other) = false := by
  rw [decide_eq_false_iff_not]
  intro howner
  have hother : s.owns_workflow other row.id = true :=
    List.any_eq_true.mpr ⟨row, hrow, decide_eq_true ⟨rfl, howner⟩⟩
  rw [hinv.owns_workflow_unique hne h] at hother
  cases hother

/-- Whatever names what is owned by `key` is not selected for `other`. -/
theorem ne_of_owns {owns : ℕ → Bool} {x y : ℕ} (hy : owns y = false) (hx : owns x = true) :
    x ≠ y := by
  rintro rfl
  rw [hy] at hx
  cases hx

/-- **A call leaves the part of another key alone.** The row whose owner was checked is
the caller's, and it is not of another key because workflow ids are unique. Wherever the
call then writes by an id that is not that row's own, a dead letter of the node or a log
of its execution, [`TablesInv`] says that the row it reaches hangs on the same execution.
-/
theorem CallEffect.owned (h : CallEffect env s key t) (hinv : TablesInv s) (hne : other ≠ key) :
    t.owned other = s.owned other := by
  cases h with
  | unchanged => rfl
  | workflow_added workflow version howner hid hversion hstored =>
      refine owned_congr ?_ ?_ rfl rfl rfl rfl
      · apply Selection.filter_append
        intro w hw
        rw [List.mem_singleton.mp hw, howner, decide_eq_false_iff_not]
        exact hne.symm
      · apply Selection.filter_append
        intro v hv
        rw [List.mem_singleton.mp hv, hversion]
        exact owns_workflow_of_not_mem hid
  | version_added version now howns hstored =>
      refine owned_congr ?_ ?_ rfl rfl rfl rfl
      · apply Selection.filter_update
        intro w hw hid
        rw [← hid] at howns
        have hnot := hinv.owner_ne hne hw howns
        exact ⟨hnot, hnot⟩
      · apply Selection.filter_append
        intro v hv
        rw [List.mem_singleton.mp hv]
        exact hinv.owns_workflow_unique hne howns
  | workflow_deleted w howns =>
      refine owned_congr ?_ ?_ rfl rfl rfl rfl
      · apply Selection.filter_filter
        intro row hrow howner
        apply decide_eq_true
        rintro rfl
        rw [hinv.owner_ne hne hrow howns] at howner
        cases howner
      · apply Selection.filter_filter
        intro v _ hv
        exact decide_eq_true (ne_of_owns (hinv.owns_workflow_unique hne howns) hv)
  | execution_started execution nodes logs publish howns hid hpks hnodes hlogs hkeys hpublish =>
      have hnew : s.owns_execution other execution.id = false := owns_execution_of_not_mem hid
      -- nothing of the other key can name the new execution yet
      refine owned_congr rfl rfl ?_ ?_ ?_ rfl
      · apply Selection.filter_append
        intro row hrow
        rw [List.mem_singleton.mp hrow]
        exact hinv.owns_workflow_unique hne howns
      · -- the rows that get a message id are of the new execution
        rw [Selection.filter_map, Selection.filter_append]
        · intro row hrow
          rw [hnodes row hrow]
          exact hnew
        · intro row _
          by_cases he : row.execution_id = execution.id
          · right
            rw [(hkeys row).2, he]
            exact ⟨hnew, hnew⟩
          · left
            exact hpublish row he
      · apply Selection.filter_append
        intro log hlog
        rw [(hlogs log hlog).1]
        exact hnew
  | node_retried row node now note hrow howns hkeys =>
      have hnot := hinv.owns_execution_unique hne howns
      refine owned_congr rfl rfl rfl ?_ rfl ?_
      · apply Selection.filter_update
        intro x hx hid
        have hrows := Selection.eq_of_key hinv.node_ids hx hrow (hid.trans hkeys.1)
        rw [hkeys.2, hrows]
        exact ⟨hnot, hnot⟩
      · apply Selection.filter_update
        intro job hjob hid
        -- the dead letters that are resolved name the node
        obtain ⟨job', hjob', hids⟩ := List.mem_map.mp hid
        obtain ⟨hmem, hkey⟩ := List.mem_filter.mp hjob'
        rw [decide_eq_true_eq] at hkey
        rw [← Selection.eq_of_key hinv.job_ids hmem hjob hids,
          hinv.execution_of_job hrow hmem hkey.1]
        exact ⟨hnot, hnot⟩
  | execution_deleted e howns =>
      have hnot := hinv.owns_execution_unique hne howns
      refine owned_congr rfl rfl ?_ ?_ ?_ ?_
      · apply Selection.filter_filter
        intro row hrow hw
        have hother : s.owns_execution other row.id = true := by
          apply List.any_eq_true.mpr
          exact ⟨row, hrow, Bool.and_eq_true_iff.mpr ⟨decide_eq_true rfl, hw⟩⟩
        exact decide_eq_true (ne_of_owns hnot hother)
      · apply Selection.filter_filter
        intro row _ he
        exact decide_eq_true (ne_of_owns hnot he)
      · apply Selection.filter_filter
        intro log hlog he
        apply decide_eq_true
        refine ⟨ne_of_owns hnot he, ?_⟩
        intro n hn hmem
        -- a log that names a node of `e` is of `e`
        obtain ⟨row, hrow, rfl⟩ := List.mem_map.mp hmem
        obtain ⟨hrow, hrowe⟩ := List.mem_filter.mp hrow
        rw [decide_eq_true_eq] at hrowe
        exact ne_of_owns hnot he ((hinv.execution_of_log hrow hlog hn).trans hrowe)
      · apply Selection.filter_filter
        intro job _ he
        exact decide_eq_true (ne_of_owns hnot he)
  | job_resolved row job hrow howns hkeys =>
      have hnot := hinv.owns_execution_unique hne howns
      refine owned_congr rfl rfl rfl rfl rfl ?_
      apply Selection.filter_update
      intro x hx hid
      have hrows := Selection.eq_of_key hinv.job_ids hx hrow (hid.trans hkeys.1)
      rw [hkeys.2.1, hrows]
      exact ⟨hnot, hnot⟩

end Frame

/-- **Tenant isolation.** Two stores that agree on what a key owns answer all its reads
alike, and no call of a key, whether it succeeds or fails, changes a row that another key
owns. The two halves use different facts. The reads answer alike on the tables and on the
part of the key ([`SameAnswers.owned`]), in any state. That writes stay within the part
needs the invariant of reachable tables ([`CallEffect.owned`]). -/
theorem tenant_isolation (env : ServiceEnv) :
    (∀ (s t : Tables) (key : ℕ), s.Reachable env → t.Reachable env →
      s.owned key = t.owned key → SameAnswers env key s t) ∧
    ∀ (s : Tables) (key other : ℕ) (c : TenantCall), s.Reachable env → other ≠ key →
      (s.call env key c).owned other = s.owned other := by
  constructor
  · intro s t key _ _ howned
    exact SameAnswers.of_owned env howned
  · intro s key other c hreach hne
    exact (call_effect env s key c).owned hreach.inv hne

/-! ## Two keys -/

/-- Key `key` adds a workflow of one node under the ids `key`. -/
def add_plain_workflow (key : ℕ) : TenantCall :=
  .create_workflow "plain" "" { name := "plain", nodes := [{ id := "main", type := "call" }] }
    key key 0

/-- One key has a workflow. -/
def one_tenant : Tables := Tables.call any_services {} 1 (add_plain_workflow 1)

/-- A second key has added its own. -/
def two_tenants : Tables := one_tenant.call any_services 2 (add_plain_workflow 2)

theorem one_tenant_reachable : one_tenant.Reachable any_services :=
  Reaches.single (.call 1 (add_plain_workflow 1)) trivial rfl

theorem two_tenants_reachable : two_tenants.Reachable any_services :=
  .tail (.call 2 (add_plain_workflow 2)) one_tenant_reachable trivial rfl

/-- The first key does not see the second come, nor its workflow go. -/
theorem tenant_isolation_two_keys :
    (one_tenant.workflows.length, two_tenants.workflows.length,
        (two_tenants.call any_services 2 (.delete_workflow 2)).workflows.length) = (1, 2, 1) ∧
      SameAnswers any_services 1 two_tenants one_tenant ∧
      (two_tenants.call any_services 2 (.delete_workflow 2)).owned 1 = two_tenants.owned 1 := by
  obtain ⟨hanswers, hrows⟩ := tenant_isolation any_services
  refine ⟨by decide +kernel, ?_, ?_⟩
  · apply hanswers two_tenants one_tenant 1 two_tenants_reachable one_tenant_reachable
    exact hrows one_tenant 2 1 (add_plain_workflow 2) one_tenant_reachable (by decide)
  · exact hrows two_tenants 2 1 (.delete_workflow 2) two_tenants_reachable (by decide)

end EventFlow
