/-
Attempt accounting.

A node's `attempt` is advanced by the first queueing, by the automatic retries
of `_handle_node_failure` and by `retry_node`, and by nothing else. [`Budget`]
is what a step can do to it, in either alphabet: an automatic retry needs an
attempt that is left, a manual one is in the ledger. [`NodeAccount`] carries the
bound along a run.

A message is owed exactly when an attempt begins, so it carries a number that
no message of the node has carried before. [`MessageInv`] keeps the jobs in the
stream and the jobs that tasks still owe apart.

In the atomic alphabet a completion needs a RUNNING node and leaves it terminal
or at its next attempt, and a terminal node only runs again after `retry_node`
has moved it on. So no attempt is completed twice: [`CompletionInv`].
-/
import EventFlow.Ledger
import EventFlow.Delivery

set_option autoImplicit false

namespace EventFlow

open Transition

/-! ## What a step does to the counters -/

/-- What a step does to the attempts of a node row. -/
structure Budget (s : Sys) (a : Action) (s' : Sys) (e : ℕ) (n : String)
    (old new : NodeExecution) : Prop where
  max_attempts : new.max_attempts = old.max_attempts
  requeue : old.status = .RUNNING → new.attempt = old.attempt + 1 →
    old.attempt < old.max_attempts
  retry : old.status = .DEAD_LETTERED → new.attempt = old.attempt + 1 →
    .retried e n ∈ s.notes a s'
  bury : old.status ≠ .DEAD_LETTERED → new.status = .DEAD_LETTERED →
    old.max_attempts ≤ old.attempt

section Budget

variable {env : Env} {s s' : Sys} {a : Action} {e : ℕ} {n : String} {old new : NodeExecution}

/-- A row whose attempt stays and that is not dead-lettered by the step. -/
theorem Budget.of_same (hmax : new.max_attempts = old.max_attempts)
    (hatt : new.attempt = old.attempt)
    (hst : new.status = .DEAD_LETTERED → old.status = .DEAD_LETTERED) :
    Budget s a s' e n old new := by
  refine ⟨hmax, fun _ h => ?_, fun _ h => ?_, fun hold hnew => absurd (hst hnew) hold⟩
  · omega
  · omega

/-- The rows of a completion. Its own node has succeeded, has been queued for one more
attempt, which is allowed because one was left, or has been buried, which happens because
none was; the nodes behind it are skipped or queued for the first time, out of PENDING,
where no attempt has to be paid for. -/
theorem Completed.budget {d : WorkflowDefinition} {node_def : Node} {m : String}
    {result : ExecutorResult} {nodes : Table String NodeExecution} {execution : Execution}
    {now : ℕ} {session : Session} {pubs : List String}
    (h : Completed d node_def m result nodes execution e now session pubs) (n : String) :
    Budget s a s' e n (nodes.row n) (session.nodes.row n) := by
  by_cases hn : n = m
  · subst hn
    have hrun := h.running.2
    cases h with
    | succeed targets _ hkey _ hres hT heff hdead hexec =>
        -- the loops touch PENDING nodes only
        have hrow : session.nodes.row n = (nodes.row n).succeed result.output now := by
          rw [heff.row_of_not_pending, Table.row_set_self]
          rw [Table.row_set_self, NodeExecution.succeed, NodeExecution.enter_status]
          simp
        rw [hrow]
        exact .of_same rfl rfl (by simp [NodeExecution.succeed])
    | requeue hkey _ hres hleft hnodes hdead hexec =>
        rw [hnodes, Table.row_set_self]
        refine ⟨rfl, fun _ _ => hleft, fun hold => ?_, fun _ hnew => ?_⟩
        · rw [hrun] at hold
          cases hold
        · simp [NodeExecution.retry] at hnew
    | bury hkey _ hres hleft hnodes hdead hexec =>
        rw [hnodes, Table.row_set_self]
        refine ⟨rfl, fun _ hatt => ?_, fun hold => ?_, fun _ _ => not_lt.mp hleft⟩
        · have : (nodes.row n).attempt = (nodes.row n).attempt + 1 := hatt
          omega
        · rw [hrun] at hold
          cases hold
  · -- another node, which can be skipped or queued if it was PENDING
    have hback : ∀ {node : NodeExecution}, (nodes.set m node).row n = nodes.row n :=
      Table.row_set_of_ne _ _ hn
    cases h with
    | succeed targets _ hkey hrun hres hT heff hdead hexec =>
        rcases heff.cases n with ⟨-, hp, hrow⟩ | ⟨-, hp, -, hrow⟩ | ⟨-, -, hrow⟩
        · rw [hback] at hrow
          rw [hrow]
          exact .of_same rfl rfl (by simp)
        · rw [hback] at hp hrow
          rw [hrow]
          refine ⟨rfl, fun hold => ?_, fun hold => ?_, fun _ hnew => ?_⟩
          · rw [hp] at hold
            cases hold
          · rw [hp] at hold
            cases hold
          · simp at hnew
        · rw [hback] at hrow
          rw [hrow]
          exact .of_same rfl rfl id
    | requeue hkey hrun hres hleft hnodes hdead hexec =>
        rw [hnodes, hback]
        exact .of_same rfl rfl id
    | bury hkey hrun hres hleft hnodes hdead hexec =>
        rw [hnodes, hback]
        exact .of_same rfl rfl id

/-- **What a step does to the attempts of the nodes of a stored execution**, in either
alphabet. The cases are those of [`Wrote`]: at most one row of the table is written by
another step than a completion, so it is enough to look at that row (`set` in the proof);
a completion goes by [`Completed.budget`]. The only attempt that is not covered by
`max_attempts` is the one `retry_node` begins, and this step leaves a note. -/
theorem Effect.budget {rows rows' : ExecutionRows} (h : Effect env s a s') (ht : s.Typed env)
    (hrows : s.executions e = some rows) (hrows' : s'.executions e = some rows') (n : String) :
    Budget s a s' e n (rows.nodes.row n) (rows'.nodes.row n) := by
  -- the rows before the step are those of `s`
  have eq : ∀ {r : ExecutionRows}, s.executions e = some r → r = rows := fun hr =>
    Option.some.inj (hr.symm.trans hrows)
  -- one row is written
  have set : ∀ {n₀ : String} {node : NodeExecution},
      (n = n₀ → Budget s a s' e n (rows.nodes.row n) node) →
      Budget s a s' e n (rows.nodes.row n) ((rows.nodes.set n₀ node).row n) := by
    intro n₀ node hset
    by_cases hn : n = n₀
    · rw [← hn, Table.row_set_self]
      exact hset hn
    · rw [Table.row_set_of_ne _ _ hn]
      exact .of_same rfl rfl id
  cases h.wrote hrows' with
  | same hr =>
      obtain rfl := eq hr
      exact .of_same rfl rfl id
  | inserted ha he =>
      have := ht.lt hrows
      omega
  | @retried t owner m r session logs ha hr hkey hst hid hrow htask =>
      obtain rfl := eq hr
      refine set ?_
      rintro rfl
      refine ⟨rfl, fun hold => ?_, fun _ _ => ?_, fun _ hnew => ?_⟩
      · rw [hst] at hold
        cases hold
      · rw [ha]
        simp [Sys.notes, htask]
      · simp at hnew
  | logged hr =>
      obtain rfl := eq hr
      exact .of_same rfl rfl id
  | claimed ha hentry he hr hkey =>
      obtain rfl := eq hr
      exact set fun hn => hn ▸ .of_same rfl rfl (by simp)
  | reverted ha hentry he hr =>
      obtain rfl := eq hr
      refine set ?_
      rintro rfl
      unfold NodeExecution.revert
      split
      · exact .of_same rfl rfl (by simp)
      · exact .of_same rfl rfl id
  | @reclaimed t m job cached r logs ha hphase he hr hst =>
      obtain rfl := eq hr
      refine set ?_
      rintro rfl
      refine .of_same rfl ?_ fun hnew => ?_
      · simp [NodeExecution.flush, written, NodeExecution.enter_attempt]
      · simp [NodeExecution.flush, written, hst] at hnew
  | completed ha hphase he hr hlookup hframe hends hdone htask =>
      obtain rfl := eq hr
      exact hdone.budget n
  | ids sent hr =>
      obtain rfl := eq hr
      obtain ⟨id, hrow⟩ := row_set_message_ids _ sent n
      rw [hrow]
      exact .of_same rfl rfl fun h => h

end Budget

/-! ## The bound -/

/-- What the ledger and the row of a node have in common. -/
structure NodeAccount (log : List Note) (e : ℕ) (n : String) (node : NodeExecution) : Prop where
  max_attempts_ge : 1 ≤ node.max_attempts
  /-- A row that has not been queued has not been tried. -/
  pending : node.status = .PENDING → node.attempt = 0
  attempt_le : node.attempt ≤ node.max_attempts + log.count (.retried e n)

/-- For every node of every stored execution. -/
def AccountInv (s : Sys) (log : List Note) : Prop :=
  ∀ e rows n, s.executions e = some rows → NodeAccount log e n (rows.nodes.row n)

section Bound

variable {env : Env} {s s' : Sys} {a : Action} {log : List Note}

/-- The rows of a new execution. -/
theorem Started.account {d : WorkflowDefinition} {rows : ExecutionRows} (h : Started d rows)
    (e : ℕ) (n : String) : NodeAccount log e n (rows.nodes.row n) := by
  have hge := initial_node_max_attempts d n
  by_cases hroot : n ∈ d.node_ids ∧ d.parent_ids n = []
  · obtain ⟨now, hrow⟩ := h.root n hroot.1 hroot.2
    have hatt : (rows.nodes.row n).attempt = 1 := by
      rw [hrow, NodeExecution.enter_queued_attempt, initial_node_attempt]
    have hmax : (rows.nodes.row n).max_attempts = (initial_node d n).max_attempts := by
      rw [hrow]
      rfl
    refine ⟨by omega, fun hp => ?_, by omega⟩
    rw [hrow, NodeExecution.enter_status] at hp
    cases hp
  · rw [h.other n hroot]
    refine ⟨hge, fun _ => initial_node_attempt d n, ?_⟩
    rw [initial_node_attempt]
    exact Nat.zero_le _

/-- One step: only an attempt that begins has to be paid for. Every other kind of step
keeps `attempt` and does not bring a node back to PENDING (`stays` in the proof). A
queueing begins an attempt, and is paid for in one of three ways: it is the first, it had
one left, or it was asked for by hand and is in the ledger. -/
theorem NodeAccount.step {e : ℕ} {n : String} {old new : NodeExecution}
    (h : NodeAccount log e n old) (hstep : NodeStep s s' a e n old new)
    (hbudget : Budget s a s' e n old new) :
    NodeAccount (log ++ s.notes a s') e n new := by
  obtain ⟨hge, hpending, hle⟩ := h
  have hmax := hbudget.max_attempts
  have hcount : (log ++ s.notes a s').count (.retried e n)
      = log.count (.retried e n) + (s.notes a s').count (.retried e n) := List.count_append
  have stays : new.attempt = old.attempt → (new.status = .PENDING → old.status = .PENDING) →
      NodeAccount (log ++ s.notes a s') e n new := by
    intro hatt hst
    refine ⟨by omega, fun hp => ?_, by omega⟩
    rw [hatt]
    exact hpending (hst hp)
  cases hstep with
  | same hst hatt => exact stays hatt fun hp => hst ▸ hp
  | claim k hclaim hst hatt => exact stays hatt fun hp => by rw [hst] at hp; cases hp
  | revert t m entry ha hentry he hn hold hst hatt =>
      exact stays hatt fun hp => by rw [hst] at hp; cases hp
  | skip hold hst hatt => exact stays hatt fun _ => hold
  | finish hold hst hatt =>
      refine stays hatt fun hp => ?_
      rcases hst with hst | hst <;> rw [hst] at hp <;> cases hp
  | queue hold hst hatt howed =>
      refine ⟨by omega, fun hp => ?_, ?_⟩
      · rw [hst] at hp
        cases hp
      -- the first queueing, an automatic retry, a manual one
      rcases hold with hold | hold | hold
      · have := hpending hold
        omega
      · have := hbudget.requeue hold hatt
        omega
      · -- a manual retry is paid for by its own note
        have := List.count_pos_iff.mpr (hbudget.retry hold hatt)
        omega

theorem AccountInv.effect (h : AccountInv s log) (heff : Effect env s a s') (ht : s.Typed env) :
    AccountInv s' (log ++ s.notes a s') := by
  intro e rows' n hrows'
  rcases heff.stored_or_started hrows' with ⟨rows, hrows⟩ | ⟨-, d, -, hstarted⟩
  · exact (h e rows n hrows).step (heff.nodeStep_of_stored ht hrows hrows' n)
      (heff.budget ht hrows hrows' n)
  · exact hstarted.account e n

/-- **Attempts are paid for**, in every run of either alphabet. Nothing is asked of the
steps: neither a crash nor a second delivery begins an attempt. -/
theorem accountInv_of_run {guard : Sys → Action → Prop} (hrun : Recorded env guard s log) :
    AccountInv s log :=
  Recorded.invariant AccountInv hrun typed_init (fun _ _ _ h => by cases h)
    (fun _ _ _ h => h) fun _ _ _ _ ht h _ heff => h.effect heff ht

end Bound

/-! ## The messages -/

/-- The row a job names and its attempt. -/
def Job.key (job : Job) : ℕ × String × ℕ := (job.execution_id, job.node_id, job.attempt)

/-- The keys of the entries of a stream. -/
def stream_keys (stream : List StreamEntry) : List (ℕ × String × ℕ) :=
  stream.map fun entry => entry.job.key

/-- The keys a task still owes. -/
def Phase.owed_keys (phase : Phase) : List (ℕ × String × ℕ) := phase.owes.map Job.key

/-- No two jobs that are published or owed have the same key, and no job names
an attempt that is yet to come. -/
structure MessageInv (s : Sys) : Prop where
  stream : (stream_keys s.stream).Nodup
  owed : ∀ t, (s.tasks t).phase.owed_keys.Nodup
  apart : ∀ t, ∀ k ∈ (s.tasks t).phase.owed_keys, k ∉ stream_keys s.stream
  tasks : ∀ t t', t ≠ t' → ∀ k ∈ (s.tasks t).phase.owed_keys, k ∉ (s.tasks t').phase.owed_keys
  sent_le : ∀ e n k rows, (e, n, k) ∈ stream_keys s.stream → s.executions e = some rows →
    1 ≤ k ∧ k ≤ (rows.nodes.row n).attempt
  owed_le : ∀ t e n k rows, (e, n, k) ∈ (s.tasks t).phase.owed_keys →
    s.executions e = some rows → 1 ≤ k ∧ k ≤ (rows.nodes.row n).attempt

section Messages

variable {env : Env} {s s' : Sys} {a : Action}

/-- What a completion publishes begins a new attempt. -/
theorem Completed.attempt_of_mem {d : WorkflowDefinition} {node_def : Node} {m n : String}
    {result : ExecutorResult} {nodes : Table String NodeExecution} {execution : Execution}
    {e now : ℕ} {session : Session} {pubs : List String}
    (h : Completed d node_def m result nodes execution e now session pubs) (hn : n ∈ pubs) :
    (session.nodes.row n).attempt = (nodes.row n).attempt + 1 := by
  cases h with
  | succeed targets _ hkey hrun hres hT heff hdead hexec =>
      rw [heff.queued n hn, NodeExecution.enter_queued_attempt]
      by_cases hm : n = m
      · subst hm
        rw [Table.row_set_self]
        rfl
      · rw [Table.row_set_of_ne _ _ hm]
  | requeue hkey hrun hres hleft hnodes hdead hexec =>
      rw [List.mem_singleton] at hn
      subst hn
      rw [hnodes, Table.row_set_self]
      rfl
  | bury => cases hn

theorem Completed.pubs_nodup {d : WorkflowDefinition} {node_def : Node} {m : String}
    {result : ExecutorResult} {nodes : Table String NodeExecution} {execution : Execution}
    {e now : ℕ} {session : Session} {pubs : List String}
    (h : Completed d node_def m result nodes execution e now session pubs) : pubs.Nodup := by
  cases h with
  | succeed targets _ hkey hrun hres hT heff hdead hexec => exact heff.nodup
  | requeue => exact List.nodup_singleton m
  | bury => exact List.nodup_nil

/-- The keys of the jobs of a session. -/
theorem mem_keys_of_jobs_of {session : Session} {pubs : List String} {e k : ℕ} {n : String} :
    (e, n, k) ∈ (Sys.jobs_of session pubs).map Job.key ↔
      e = session.execution_id ∧ n ∈ pubs ∧ k = (session.nodes.row n).attempt := by
  simp only [Sys.jobs_of, List.map_map, List.mem_map, Function.comp_apply, Job.key, Session.job,
    Prod.mk.injEq]
  constructor
  · rintro ⟨m, hm, rfl, rfl, rfl⟩
    exact ⟨rfl, hm, rfl⟩
  · rintro ⟨rfl, hn, rfl⟩
    exact ⟨n, hn, rfl, rfl, rfl⟩

theorem nodup_keys_of_jobs_of {session : Session} {pubs : List String} (h : pubs.Nodup) :
    ((Sys.jobs_of session pubs).map Job.key).Nodup := by
  rw [Sys.jobs_of, List.map_map]
  refine h.map fun n n' heq => ?_
  simp only [Function.comp_apply, Job.key, Session.job, Prod.mk.injEq] at heq
  exact heq.2.1

/-- The attempt a key names begins with this step. -/
def Sys.Begins (s : Sys) : ℕ × String × ℕ → Prop
  | (e, n, k) => e = s.next_execution_id ∨
    ∃ rows, s.executions e = some rows ∧ k = (rows.nodes.row n).attempt + 1

/-- **How the keys a task owes come about**: it owed them before, or they name attempts
that begin with this step. A task owes messages only in the phase `publishing`, and it
comes to that phase by a start, by a manual retry or by a completion. In each of these the
keys are those of the nodes that the same commit has queued, at the attempts the commit
has given them. In the other cases the list is the old one or its tail. -/
theorem Effect.owed_keys (h : Effect env s a s') (t : ℕ) :
    (s'.tasks t).phase.owed_keys <:+ (s.tasks t).phase.owed_keys ∨
      ((s'.tasks t).phase.owed_keys.Nodup ∧
        ∀ e n k, (e, n, k) ∈ (s'.tasks t).phase.owed_keys → s.Begins (e, n, k) ∧
          ∃ rows', s'.executions e = some rows' ∧ 1 ≤ k ∧ k = (rows'.nodes.row n).attempt) := by
  have hcomes := h.comes t
  cases hphase : (s'.tasks t).phase with
  | publishing msg e owed sent =>
      rw [hphase] at hcomes
      cases hcomes with
      | stayed hold =>
          rw [hold]
          exact .inl (List.suffix_refl _)
      | published hold =>
          rw [hold]
          exact .inl (List.suffix_cons _ _)
      -- a new execution: its id is fresh, and the roots are queued at attempt 1
      | @started vid owner input session pubs hok hrows' =>
          obtain ⟨version, -, hacc, hsteps, -, -, -, -, -, -, -, hpubs, hq, -⟩ :=
            start_execution_spec hok
          refine .inr ⟨nodup_keys_of_jobs_of ?_, fun e n k hmem => ?_⟩
          · rw [hpubs]
            exact hacc.wellFormed.nodup.filter _
          · obtain ⟨he, hn, hk⟩ := mem_keys_of_jobs_of.mp hmem
            rw [hsteps.sameFrame.execution_id] at he
            change e = s.next_execution_id at he
            subst he
            have hatt : (session.nodes.row n).attempt = 1 := by
              rw [hq n hn, NodeExecution.enter_queued_attempt, initial_node_attempt]
            exact ⟨.inl rfl, _, hrows', by omega, hk⟩
      | @retried e₀ n₀ rows rows' session hrows hkey hst hid hrows' hnodes hrow =>
          refine .inr ⟨nodup_keys_of_jobs_of (List.nodup_singleton _), fun e n k hk => ?_⟩
          obtain ⟨rfl, hn, rfl⟩ := mem_keys_of_jobs_of.mp hk
          rw [List.mem_singleton] at hn
          subst hn
          have hatt : (session.nodes.row n).attempt = (rows.nodes.row n).attempt + 1 := by
            rw [hrow, NodeExecution.enter_queued_attempt]
          rw [← hid] at hrows hrows'
          exact ⟨.inr ⟨rows, hrows, hatt⟩, rows', hrows', by omega, by rw [hnodes]⟩
      | @completed m result context execution rows rows' d node_def session pubs hold hrows hid
          hrows' hnodes hdone =>
          refine .inr ⟨nodup_keys_of_jobs_of hdone.pubs_nodup, fun e n k hk => ?_⟩
          obtain ⟨rfl, hn, rfl⟩ := mem_keys_of_jobs_of.mp hk
          have hatt := hdone.attempt_of_mem hn
          rw [← hid] at hrows hrows'
          exact ⟨.inr ⟨rows, hrows, hatt⟩, rows', hrows', by omega, by rw [hnodes]⟩
  | _ => exact .inl (List.nil_suffix)

/-- The stream grows by what is owed. -/
theorem Effect.stream_keys (h : Effect env s a s') :
    stream_keys s'.stream = stream_keys s.stream ∨
      ∃ t key, stream_keys s'.stream = stream_keys s.stream ++ [key] ∧
        (s.tasks t).phase.owed_keys = key :: (s'.tasks t).phase.owed_keys ∧
        ∀ t', t' ≠ t → s'.tasks t' = s.tasks t' := by
  cases h with
  | @publish t e msg job owed sent events htask =>
      refine .inr ⟨t, job.key, ?_, ?_, fun t' ht' => ?_⟩
      · simp [EventFlow.stream_keys]
      · simp only [htask, Function.update_self]
        rfl
      · simp only [Function.update_of_ne ht']
  | ack htask =>
      refine .inl (List.ext_getElem? fun i => ?_)
      rw [EventFlow.stream_keys, EventFlow.stream_keys, List.getElem?_map, List.getElem?_map,
        Sys.xack, List.getElem?_modify]
      cases s.stream[i]? with
      | none => rfl
      | some entry =>
          -- an ack marks the entry and leaves its job
          simp only [Option.map_some]
          split <;> rfl
  | _ => exact .inl rfl

/-- An attempt that begins with this step has not been named before. -/
theorem MessageInv.fresh {key : ℕ × String × ℕ} (h : MessageInv s) (ht : s.Typed env)
    (hkey : s.Begins key) :
    key ∉ stream_keys s.stream ∧ ∀ t, key ∉ (s.tasks t).phase.owed_keys := by
  obtain ⟨e, n, k⟩ := key
  rcases hkey with rfl | ⟨rows, hrows, rfl⟩
  · constructor
    · intro hmem
      obtain ⟨entry, hentry, hk⟩ := List.mem_map.mp hmem
      have hlt := ht.stream entry hentry
      simp only [Job.key, Prod.mk.injEq] at hk
      omega
    · intro t hmem
      obtain ⟨job, hjob, hk⟩ := List.mem_map.mp hmem
      have hlt := ht.tasks t _ (mem_execution_ids_of_owes hjob)
      simp only [Job.key, Prod.mk.injEq] at hk
      omega
  · constructor
    · intro hmem
      have := h.sent_le e n _ rows hmem hrows
      omega
    · intro t hmem
      have := h.owed_le t e n _ rows hmem hrows
      omega

/-- A bound by the committed attempt is kept: attempts only grow. -/
theorem Effect.bound_stays {e k : ℕ} {n : String} {rows' : ExecutionRows}
    (h : Effect env s a s') (ht : s.Typed env) (he : e < s.next_execution_id)
    (hold : ∀ rows, s.executions e = some rows → 1 ≤ k ∧ k ≤ (rows.nodes.row n).attempt)
    (hrows' : s'.executions e = some rows') : 1 ≤ k ∧ k ≤ (rows'.nodes.row n).attempt := by
  rcases h.stored_or_started hrows' with ⟨rows, hrows⟩ | ⟨hnew, -⟩
  · have hle := (h.nodeStep_of_stored ht hrows hrows' n).attempt_le
    have hk := hold rows hrows
    omega
  · omega

/-- The keys in the stream and the keys that tasks owe are of executions that
have been created. -/
theorem Sys.Typed.sent_lt (ht : s.Typed env) {e k : ℕ} {n : String}
    (hmem : (e, n, k) ∈ stream_keys s.stream) : e < s.next_execution_id := by
  obtain ⟨entry, hentry, hk⟩ := List.mem_map.mp hmem
  have hlt := ht.stream entry hentry
  simp only [Job.key, Prod.mk.injEq] at hk
  omega

theorem Sys.Typed.owed_lt (ht : s.Typed env) {t e k : ℕ} {n : String}
    (hmem : (e, n, k) ∈ (s.tasks t).phase.owed_keys) : e < s.next_execution_id := by
  obtain ⟨job, hjob, hk⟩ := List.mem_map.mp hmem
  have hlt := ht.tasks t _ (mem_execution_ids_of_owes hjob)
  simp only [Job.key, Prod.mk.injEq] at hk
  omega

/-- A key that is owed now was owed before or is new. -/
theorem Effect.owed_key_old (heff : Effect env s a s') {t : ℕ} {key : ℕ × String × ℕ}
    (hkey : key ∈ (s'.tasks t).phase.owed_keys) :
    key ∈ (s.tasks t).phase.owed_keys ∨ s.Begins key := by
  rcases heff.owed_keys t with hsuf | ⟨-, hnew⟩
  · exact .inl (hsuf.subset hkey)
  · obtain ⟨e, n, k⟩ := key
    exact .inr (hnew e n k hkey).1

/-! ### One lemma for each field -/

theorem MessageInv.stream_effect (h : MessageInv s) (heff : Effect env s a s') :
    (stream_keys s'.stream).Nodup := by
  rcases heff.stream_keys with hsame | ⟨t, key, happ, howed, -⟩
  · rw [hsame]
    exact h.stream
  · rw [happ]
    refine List.nodup_append.mpr ⟨h.stream, List.nodup_singleton _, fun k hk k' hk' => ?_⟩
    rw [List.mem_singleton] at hk'
    subst hk'
    rintro rfl
    exact h.apart t k (by rw [howed]; exact List.mem_cons_self) hk

theorem MessageInv.apart_effect (h : MessageInv s) (heff : Effect env s a s') (ht : s.Typed env)
    {t : ℕ} {k : ℕ × String × ℕ} (hk : k ∈ (s'.tasks t).phase.owed_keys) :
    k ∉ stream_keys s'.stream := by
  -- the stream stays as it is, or one key moves from a task to the stream
  rcases heff.stream_keys with hsame | ⟨t₀, key, happ, howed, hothers⟩
  · rw [hsame]
    rcases heff.owed_key_old hk with hk | hbegins
    · exact h.apart t k hk
    · exact (h.fresh ht hbegins).1
  · -- the key that has just been published is owed no more
    have hkey : key ∈ (s.tasks t₀).phase.owed_keys := by rw [howed]; exact List.mem_cons_self
    have hk₀ : k ∈ (s.tasks t).phase.owed_keys ∧ k ≠ key := by
      by_cases ht₀ : t = t₀
      · subst ht₀
        have hnodup := h.owed t
        rw [howed] at hnodup ⊢
        refine ⟨List.mem_cons_of_mem _ hk, ?_⟩
        rintro rfl
        exact (List.nodup_cons.mp hnodup).1 hk
      · rw [hothers t ht₀] at hk
        refine ⟨hk, ?_⟩
        rintro rfl
        exact h.tasks t t₀ ht₀ k hk hkey
    rw [happ]
    intro hmem
    rcases List.mem_append.mp hmem with hmem | hmem
    · exact h.apart t k hk₀.1 hmem
    · exact hk₀.2 (List.mem_singleton.mp hmem)

theorem MessageInv.tasks_effect (h : MessageInv s) (heff : Effect env s a s') (ht : s.Typed env)
    {t t' : ℕ} (hne : t ≠ t') {k : ℕ × String × ℕ} (hk : k ∈ (s'.tasks t).phase.owed_keys) :
    k ∉ (s'.tasks t').phase.owed_keys := by
  intro hk'
  -- one task moves, so one of two tasks owes what it owed before
  by_cases htask : a.task = some t
  · have hother : s'.tasks t' = s.tasks t' := by
      refine heff.tasks_of_ne fun h' => hne ?_
      rw [htask, Option.some.injEq] at h'
      exact h'
    rw [hother] at hk'
    rcases heff.owed_key_old hk with hk | hbegins
    · exact h.tasks t t' hne k hk hk'
    · exact (h.fresh ht hbegins).2 t' hk'
  · rw [heff.tasks_of_ne htask] at hk
    rcases heff.owed_key_old hk' with hk' | hbegins
    · exact h.tasks t t' hne k hk hk'
    · exact (h.fresh ht hbegins).2 t hk

theorem MessageInv.sent_le_effect (h : MessageInv s) (heff : Effect env s a s')
    (ht : s.Typed env) {e k : ℕ} {n : String} {rows' : ExecutionRows}
    (hmem : (e, n, k) ∈ stream_keys s'.stream) (hrows' : s'.executions e = some rows') :
    1 ≤ k ∧ k ≤ (rows'.nodes.row n).attempt := by
  have hk : (e, n, k) ∈ stream_keys s.stream ∨
      ∃ t, (e, n, k) ∈ (s.tasks t).phase.owed_keys := by
    rcases heff.stream_keys with hsame | ⟨t, key, happ, howed, -⟩
    · exact .inl (hsame ▸ hmem)
    · rw [happ] at hmem
      rcases List.mem_append.mp hmem with hmem | hmem
      · exact .inl hmem
      · rw [List.mem_singleton] at hmem
        exact .inr ⟨t, by rw [howed, hmem]; exact List.mem_cons_self⟩
  rcases hk with hk | ⟨t, hk⟩
  · exact heff.bound_stays ht (ht.sent_lt hk) (fun rows => h.sent_le e n k rows hk) hrows'
  · exact heff.bound_stays ht (ht.owed_lt hk) (fun rows => h.owed_le t e n k rows hk) hrows'

theorem MessageInv.owed_le_effect (h : MessageInv s) (heff : Effect env s a s')
    (ht : s.Typed env) {t e k : ℕ} {n : String} {rows' : ExecutionRows}
    (hmem : (e, n, k) ∈ (s'.tasks t).phase.owed_keys) (hrows' : s'.executions e = some rows') :
    1 ≤ k ∧ k ≤ (rows'.nodes.row n).attempt := by
  rcases heff.owed_keys t with hsuf | ⟨-, hnew⟩
  · have hk := hsuf.subset hmem
    exact heff.bound_stays ht (ht.owed_lt hk) (fun rows => h.owed_le t e n k rows hk) hrows'
  · obtain ⟨-, rows₁, hrows₁, hge, heq⟩ := hnew e n k hmem
    rw [hrows', Option.some.injEq] at hrows₁
    subst hrows₁
    exact ⟨hge, le_of_eq heq⟩

theorem MessageInv.effect (h : MessageInv s) (heff : Effect env s a s') (ht : s.Typed env) :
    MessageInv s' where
  stream := h.stream_effect heff
  owed := by
    intro t
    rcases heff.owed_keys t with hsuf | ⟨hnodup, -⟩
    · exact (h.owed t).sublist hsuf.sublist
    · exact hnodup
  apart := fun _ _ hk => h.apart_effect heff ht hk
  tasks := fun _ _ hne _ hk => h.tasks_effect heff ht hne hk
  sent_le := fun _ _ _ _ hmem hrows' => h.sent_le_effect heff ht hmem hrows'
  owed_le := fun _ _ _ _ _ hmem hrows' => h.owed_le_effect heff ht hmem hrows'

/-- **Messages carry distinct attempts**, in every run of either alphabet. A key is fresh
when it comes to be owed, and then it is only handed on: from the list of its task to the
stream, where it stays. So the lists of different tasks and the stream never share one. -/
theorem messageInv_of_run {guard : Sys → Action → Prop}
    (hrun : Reaches (Sys.step env) guard Sys.init s) : MessageInv s := by
  refine Sys.invariant_of_effect MessageInv hrun typed_init ?_
    (fun _ _ h => ⟨h.stream, h.owed, h.apart, h.tasks, h.sent_le, h.owed_le⟩)
    fun u a v ht h _ heff => h.effect heff ht
  have hnil : ∀ t, (Sys.init.tasks t).phase.owed_keys = [] := fun _ => rfl
  refine ⟨List.nodup_nil, fun t => ?_, ?_, ?_, ?_, ?_⟩
  · rw [hnil]
    exact List.nodup_nil
  · intro t k hk
    cases hk
  · intro t t' _ k hk
    cases hk
  · intro e n k rows hk
    cases hk
  · intro t e n k rows hk
    cases hk

end Messages

/-! ## Completions -/

/-- What the atomic alphabet adds about one row. -/
structure AttemptLedger (log : List Note) (e : ℕ) (n : String) (node : NodeExecution) :
    Prop where
  zero : node.attempt = 0 ↔ node.status = .PENDING ∨ node.status = .SKIPPED
  dead : node.status = .DEAD_LETTERED → node.max_attempts ≤ node.attempt
  /-- An attempt that has been completed is over. -/
  completed : ∀ k, .completed e n k ∈ log →
    k < node.attempt ∨
      (k = node.attempt ∧ (node.status = .SUCCEEDED ∨ node.status = .DEAD_LETTERED))

/-- For every stored row, and no attempt has been completed twice. -/
structure CompletionInv (s : Sys) (log : List Note) : Prop where
  rows : ∀ e rows n, s.executions e = some rows → AttemptLedger log e n (rows.nodes.row n)
  once : ∀ e n k, log.count (.completed e n k) ≤ 1
  fresh : ∀ e n k, .completed e n k ∈ log → e < s.next_execution_id

section Completions

variable {env : Env} {s s' : Sys} {a : Action} {log : List Note} {e : ℕ} {n : String}

/-- A claim of the atomic alphabet takes a node that is QUEUED or RUNNING. The claim from
a cached instance, which asks nothing of the row, is not in that alphabet. -/
theorem status_of_claims {k : ℕ} {rows : ExecutionRows} (ha : a.atomic = true)
    (h : s.claims a = some (e, n, k)) (hrows : s.executions e = some rows) :
    (rows.nodes.row n).status = .QUEUED ∨ (rows.nodes.row n).status = .RUNNING := by
  cases a with
  | claim t m =>
      simp only [Sys.claims] at h
      split at h
      · rename_i entry hentry
        split at h
        · rename_i rows₀ hrows₀
          split at h
          · rename_i hst
            cases h
            rw [hrows, Option.some.injEq] at hrows₀
            exact .inl (hrows₀ ▸ hst)
          · cases h
        · cases h
      · cases h
  | recover_claim t m =>
      simp only [Sys.claims] at h
      split at h
      · rename_i entry hentry
        split at h
        · rename_i rows₀ hrows₀
          split at h
          · rename_i hst
            cases h
            rw [hrows, Option.some.injEq] at hrows₀
            exact hrows₀ ▸ hst
          · cases h
        · cases h
      · cases h
  | reclaim t => cases ha
  | _ => cases h

/-- The rows of a new execution: nothing has been completed. -/
theorem Started.attemptLedger {d : WorkflowDefinition} {rows : ExecutionRows}
    (h : Started d rows) (hfresh : ∀ k, .completed e n k ∉ log) :
    AttemptLedger log e n (rows.nodes.row n) := by
  by_cases hroot : n ∈ d.node_ids ∧ d.parent_ids n = []
  · obtain ⟨now, hrow⟩ := h.root n hroot.1 hroot.2
    refine ⟨?_, fun hdead => ?_, fun k hk => absurd hk (hfresh k)⟩
    · rw [hrow, NodeExecution.enter_queued_attempt, NodeExecution.enter_status]
      simp
    · rw [hrow, NodeExecution.enter_status] at hdead
      cases hdead
  · rw [h.other n hroot]
    refine ⟨by simp, fun hdead => ?_, fun k hk => absurd hk (hfresh k)⟩
    rw [initial_node_status] at hdead
    cases hdead

/-- One step. The attempt that has just been completed is the current one of a node that
is over, or a former one; what the invariant has to exclude is that a node which is over
comes back to the same attempt. A claim in the atomic alphabet finds a node with work, so
it does not; `retry_node` does bring a node back, but at the next attempt. -/
theorem AttemptLedger.step {old new : NodeExecution} (h : AttemptLedger log e n old)
    (ha : a.atomic = true) (hstep : NodeStep s s' a e n old new)
    (hclaimed : ∀ k, s.claims a = some (e, n, k) → old.status = .QUEUED ∨ old.status = .RUNNING)
    (hbudget : Budget s a s' e n old new)
    (hnotes : ∀ k, .completed e n k ∈ s.notes a s' → k < new.attempt ∨
      (k = new.attempt ∧ (new.status = .SUCCEEDED ∨ new.status = .DEAD_LETTERED))) :
    AttemptLedger (log ++ s.notes a s') e n new := by
  obtain ⟨hzero, hdead, hcompleted⟩ := h
  have hmax := hbudget.max_attempts
  -- what was completed before the step is still over
  have build : (new.attempt = 0 ↔ new.status = .PENDING ∨ new.status = .SKIPPED) →
      (new.status = .DEAD_LETTERED → new.max_attempts ≤ new.attempt) →
      (∀ k, k = old.attempt → old.status = .SUCCEEDED ∨ old.status = .DEAD_LETTERED →
        k < new.attempt ∨
          (k = new.attempt ∧ (new.status = .SUCCEEDED ∨ new.status = .DEAD_LETTERED))) →
      AttemptLedger (log ++ s.notes a s') e n new := by
    intro h1 h2 h3
    refine ⟨h1, h2, fun k hk => ?_⟩
    rcases List.mem_append.mp hk with hk | hk
    · rcases hcompleted k hk with hlt | ⟨heq, hst⟩
      · exact .inl (hlt.trans_le hstep.attempt_le)
      · exact h3 k heq hst
    · exact hnotes k hk
  cases hstep with
  | same hst hatt =>
      refine build (by rw [hst, hatt]; exact hzero) (fun hd => ?_) fun k hk hover => ?_
      · have := hdead (hst ▸ hd)
        omega
      · exact .inr ⟨by omega, by rwa [hst]⟩
  -- a claim of a node that is over would spoil the ledger, but there is none
  | claim k hclaim hst hatt =>
      have hold := hclaimed k hclaim
      refine build ?_ (fun hd => ?_) fun k' _ hover => ?_
      · rw [hatt, hzero, hst]
        rcases hold with hold | hold <;> simp [hold]
      · rw [hst] at hd
        cases hd
      · rcases hold with hold | hold <;> simp [hold] at hover
  | revert t m entry hrec =>
      rw [hrec] at ha
      cases ha
  | skip hold hst hatt =>
      refine build ?_ (fun hd => ?_) fun k' _ hover => ?_
      · rw [hatt, hzero, hst, hold]
        simp
      · rw [hst] at hd
        cases hd
      · simp [hold] at hover
  | queue hold hst hatt howed =>
      refine build ?_ (fun hd => ?_) fun k' hk' _ => .inl (by omega)
      · rw [hst]
        simp [hatt]
      · rw [hst] at hd
        cases hd
  | finish hold hst hatt =>
      refine build ?_ (fun hd => ?_) fun k' _ hover => ?_
      · rw [hatt, hzero, hold]
        rcases hst with hst | hst <;> simp [hst]
      · have := hbudget.bury (by simp [hold]) hd
        omega
      · simp [hold] at hover

theorem CompletionInv.effect (h : CompletionInv s log) (heff : Effect env s a s')
    (ht : s.Typed env) (ha : a.atomic = true) : CompletionInv s' (log ++ s.notes a s') := by
  refine ⟨?_, ?_, ?_⟩
  · intro e rows' n hrows'
    rcases heff.stored_or_started hrows' with ⟨rows, hrows⟩ | ⟨hnew, d, -, hstarted⟩
    · refine (h.rows e rows n hrows).step ha (heff.nodeStep_of_stored ht hrows hrows' n)
        (fun k hk => status_of_claims ha hk hrows) (heff.budget ht hrows hrows' n) fun k hk => ?_
      obtain ⟨rows₁, rows₁', -, hrows₁, hrows₁', -, rfl, hmoved⟩ := heff.mem_notes_completed hk
      rw [hrows', Option.some.injEq] at hrows₁'
      subst hrows₁'
      rcases hmoved with hmoved | ⟨hsame, hst⟩
      · exact .inl (by omega)
      · exact .inr ⟨hsame.symm, hst⟩
    · refine hstarted.attemptLedger fun k hk => ?_
      rcases List.mem_append.mp hk with hk | hk
      · have := h.fresh e n k hk
        omega
      · obtain ⟨rows, -, -, hrows, -⟩ := heff.mem_notes_completed hk
        have := ht.lt hrows
        omega
  · intro e n k
    rw [List.count_append]
    have hlog := h.once e n k
    by_cases hmem : .completed e n k ∈ s.notes a s'
    · obtain ⟨rows, rows', hnotes, hrows, -, hrun, hk, -⟩ := heff.mem_notes_completed hmem
      -- the row is RUNNING at this attempt, so the attempt was not over
      have hnot : .completed e n k ∉ log := by
        intro hin
        rcases (h.rows e rows n hrows).completed k hin with hlt | ⟨-, hst⟩
        · omega
        · simp [hrun] at hst
      rw [List.count_eq_zero.mpr hnot, hnotes, List.count_singleton_self]
    · rw [List.count_eq_zero.mpr hmem]
      exact hlog
  · intro e n k hk
    have hle := heff.next_le
    rcases List.mem_append.mp hk with hk | hk
    · exact (h.fresh e n k hk).trans_le hle
    · obtain ⟨rows, -, -, hrows, -⟩ := heff.mem_notes_completed hk
      exact (ht.lt hrows).trans_le hle

theorem completionInv_of_run (hrun : Recorded env (fun _ a => a.atomic = true) s log) :
    CompletionInv s log := by
  refine Recorded.invariant CompletionInv hrun typed_init ⟨?_, ?_, ?_⟩
    (fun _ _ _ h => ⟨h.rows, h.once, h.fresh⟩) fun _ _ _ _ ht h ha heff => h.effect heff ht ha
  · intro e rows n hrows
    cases hrows
  · intro e n k
    exact Nat.zero_le 1
  · intro e n k hk
    cases hk

end Completions

/-- The attempts that the messages published for a node carry, in the order of
the stream. -/
def Sys.published_attempts (s : Sys) (e : ℕ) (n : String) : List ℕ :=
  ((s.stream.map StreamEntry.job).filter fun job =>
    decide (job.execution_id = e ∧ job.node_id = n)).map Job.attempt

theorem mem_published_attempts {s : Sys} {e k : ℕ} {n : String} :
    k ∈ s.published_attempts e n ↔ (e, n, k) ∈ stream_keys s.stream := by
  simp only [Sys.published_attempts, stream_keys, List.mem_map, List.mem_filter,
    decide_eq_true_eq, Job.key, Prod.mk.injEq]
  constructor
  · rintro ⟨_, ⟨⟨entry, hentry, rfl⟩, he, hn⟩, hk⟩
    exact ⟨entry, hentry, he, hn, hk⟩
  · rintro ⟨entry, hentry, he, hn, hk⟩
    exact ⟨entry.job, ⟨⟨entry, hentry, rfl⟩, he, hn⟩, hk⟩

/-- Entries with distinct keys carry distinct attempts for one node. -/
theorem published_attempts_nodup {s : Sys} (h : (stream_keys s.stream).Nodup) (e : ℕ)
    (n : String) : (s.published_attempts e n).Nodup := by
  have hkeys : (s.published_attempts e n).map (fun k => (e, n, k))
      = ((s.stream.map StreamEntry.job).filter fun job =>
          decide (job.execution_id = e ∧ job.node_id = n)).map Job.key := by
    rw [Sys.published_attempts, List.map_map]
    refine List.map_congr_left fun job hjob => ?_
    obtain ⟨he, hn⟩ := of_decide_eq_true (List.mem_filter.mp hjob).2
    simp only [Function.comp_apply, Job.key, he, hn]
  refine List.Nodup.of_map (fun k => (e, n, k)) ?_
  rw [hkeys]
  have hall : ((s.stream.map StreamEntry.job).map Job.key).Nodup := by
    rw [List.map_map]
    exact h
  exact hall.sublist (List.filter_sublist.map _)

/-- **Attempt accounting.** In every run of atomic steps, for every node: its attempt is
within its budget and the manual retries that went through, it is 0 exactly while the node
waits or is skipped, a dead letter has used its budget up, no attempt is completed twice,
and the messages published for it carry distinct attempts between 1 and the current one.
The parts come from three invariants. The bound is [`AccountInv`], which holds in both
alphabets, as do the facts about messages ([`MessageInv`]). That an attempt is completed
only once, and when it is 0, needs the atomic alphabet ([`CompletionInv`]): there a
completion looks at the row it writes. FAILED and RETRYING are passed through within one
commit, so no committed row has them. -/
theorem attempt_accounting (env : Env) (s : Sys) (log : List Note) (e : ℕ)
    (rows : ExecutionRows) (n : String)
    (hrun : Recorded env (fun _ a => a.atomic = true) s log)
    (hrows : s.executions e = some rows) :
    (rows.nodes.row n).attempt ≤ (rows.nodes.row n).max_attempts + log.count (.retried e n) ∧
    ((rows.nodes.row n).attempt = 0 ↔
      (rows.nodes.row n).status = .PENDING ∨ (rows.nodes.row n).status = .SKIPPED) ∧
    ((rows.nodes.row n).status = .DEAD_LETTERED →
      (rows.nodes.row n).max_attempts ≤ (rows.nodes.row n).attempt) ∧
    (∀ k, log.count (.completed e n k) ≤ 1) ∧
    (s.published_attempts e n).Nodup ∧
    (∀ k ∈ s.published_attempts e n, 1 ≤ k ∧ k ≤ (rows.nodes.row n).attempt) ∧
    (rows.nodes.row n).status ≠ .FAILED ∧ (rows.nodes.row n).status ≠ .RETRYING := by
  have haccount := accountInv_of_run hrun e rows n hrows
  have hcomp := completionInv_of_run hrun
  have hledger := hcomp.rows e rows n hrows
  have hmsg := messageInv_of_run hrun.forget
  have hinv := atomicInv_of_run hrun.forget
  obtain ⟨d, hd⟩ := hinv.typed.rows e rows hrows
  have hsettled := (hinv.dag e rows d hrows hd).settled n
  refine ⟨haccount.attempt_le, hledger.zero, hledger.dead, hcomp.once e n, ?_, ?_,
    hsettled.1, hsettled.2⟩
  · exact published_attempts_nodup hmsg.stream e n
  · intro k hk
    exact hmsg.sent_le e n k rows (mem_published_attempts.mp hk) hrows

/-- One attempt, a dead letter and a manual retry. -/
def retried_run : List Action :=
  [.start 0 0 none 0, .publish 0, .claim 1 0, .flush 1, .flush 1, .invoke 1,
    .complete 1 failed, .retry 2 0 "a" 0, .publish 2]

/-- The second attempt of a node that may be tried once is the manual one. -/
theorem attempt_accounting_solo :
    ∃ (s : Sys) (log : List Note) (rows : ExecutionRows),
      s.executions 0 = some rows ∧ log.count (.retried 0 "a") = 1 ∧
      (rows.nodes.row "a").attempt = 2 ∧
      (rows.nodes.row "a").attempt
        ≤ (rows.nodes.row "a").max_attempts + log.count (.retried 0 "a") ∧
      (s.published_attempts 0 "a").Nodup ∧ 2 ∈ s.published_attempts 0 "a" := by
  have hst : (recorded_run (env_of solo) (fun _ a => a.atomic) retried_run).bind (fun u =>
      (u.1.executions 0).bind fun rows => (rows.nodes.get? "a").map fun node =>
        (node.attempt, u.2.count (.retried 0 "a"), u.1.published_attempts 0 "a"))
      = some (2, 1, [1, 2]) := by decide +kernel
  obtain ⟨⟨s, log⟩, hs, hst⟩ := Option.bind_eq_some_iff.mp hst
  obtain ⟨rows, hrows, hst⟩ := Option.bind_eq_some_iff.mp hst
  obtain ⟨node, hnode, hst⟩ := Option.map_eq_some_iff.mp hst
  obtain ⟨-, rfl⟩ := Table.get?_eq_some_iff.mp hnode
  simp only [Prod.mk.injEq] at hst
  obtain ⟨hatt, hcount, hpub⟩ := hst
  have hall := attempt_accounting (env_of solo) s log 0 rows "a" (reaches_of_run hs) hrows
  refine ⟨s, log, rows, hrows, hcount, hatt, hall.1, hall.2.2.2.2.1, ?_⟩
  rw [hpub]
  decide

end EventFlow
