/-
The projections of a step.

[`Effect`] says all that a step does, and most invariants need one aspect of it.
[`Comes`] is how a task comes to the phase it is in after a step, [`Wrote`] how
the rows of an execution come to be what they are: both follow one task, or one
execution, through the step, so that "the others are where they were" is said
once and for all. [`RowsStep`] is `Wrote` for the atomic alphabet, without the
state around it.

[`typed_of_reaches`] and the invariant rule [`Sys.invariant_of_effect`] are the
way from steps to runs.
-/
import EventFlow.Effect

set_option autoImplicit false

namespace EventFlow

/-! ## Typed states -/

section Typed

variable {env : Env} {s s' : Sys}

theorem Sys.Typed.lt {e : ℕ} {rows : ExecutionRows} (h : s.Typed env)
    (hrows : s.executions e = some rows) : e < s.next_execution_id := by
  by_contra hge
  rw [h.fresh e (not_lt.mp hge)] at hrows
  cases hrows

theorem Sys.Typed.entry_lt {m : ℕ} {entry : StreamEntry} (h : s.Typed env)
    (hentry : s.stream[m]? = some entry) : entry.job.execution_id < s.next_execution_id :=
  h.stream entry (List.mem_of_getElem? hentry)

/-- The task that moves is checked, the others are where they were. -/
theorem Sys.Typed.update_tasks {t : ℕ} {task : Task} (h : s.Typed env)
    (htask : ∀ e ∈ task.phase.execution_ids, e < s.next_execution_id) (t' : ℕ) :
    ∀ e ∈ (Function.update s.tasks t task t').phase.execution_ids, e < s.next_execution_id := by
  by_cases ht : t' = t
  · subst ht
    rwa [Function.update_self]
  · rw [Function.update_of_ne ht]
    exact h.tasks t'

theorem Sys.Typed.park {t : ℕ} {phase : Phase} (h : s.Typed env)
    (hphase : ∀ e ∈ phase.execution_ids, e < s.next_execution_id) :
    (s.park t phase).Typed env :=
  ⟨h.rows, h.fresh, h.stream, h.update_tasks hphase⟩

/-- Rows that are written over rows of the same version and keys. -/
theorem Sys.Typed.update_rows {e : ℕ} {rows r : ExecutionRows} (h : s.Typed env)
    (hrows : s.executions e = some rows)
    (hv : r.execution.workflow_version_id = rows.execution.workflow_version_id)
    (hk : r.nodes.keys = rows.nodes.keys) :
    (∀ e' q, Function.update s.executions e (some r) e' = some q → ∃ d, q.Of env d) ∧
      ∀ e', s.next_execution_id ≤ e' → Function.update s.executions e (some r) e' = none := by
  refine ⟨fun e' q hq => ?_, fun e' he' => ?_⟩
  · by_cases he : e' = e
    · subst he
      rw [Function.update_self, Option.some.injEq] at hq
      subst hq
      obtain ⟨d, hd⟩ := h.rows _ _ hrows
      exact ⟨d, hd.congr hv hk⟩
    · rw [Function.update_of_ne he] at hq
      exact h.rows e' q hq
  · have he : e' ≠ e := by
      rintro rfl
      exact absurd (h.lt hrows) (not_lt.mpr he')
    rw [Function.update_of_ne he]
    exact h.fresh e' he'

theorem Sys.Typed.commit {t e : ℕ} {rows rows' : ExecutionRows} {events : List Envelope}
    {phase : Phase} (h : s.Typed env) (hrows : s.executions e = some rows)
    (hv : rows'.execution.workflow_version_id = rows.execution.workflow_version_id)
    (hk : rows'.nodes.keys = rows.nodes.keys)
    (hphase : ∀ e ∈ phase.execution_ids, e < s.next_execution_id) :
    (s.commit t e rows' events phase).Typed env :=
  ⟨(h.update_rows hrows hv hk).1, (h.update_rows hrows hv hk).2, h.stream,
    h.update_tasks hphase⟩

/-- The jobs of a session are jobs of its execution. -/
theorem execution_id_of_mem_jobs_of {session : Session} {pubs : List String} {job : Job}
    (h : job ∈ Sys.jobs_of session pubs) : job.execution_id = session.execution_id := by
  obtain ⟨n, -, rfl⟩ := List.mem_map.mp h
  rfl

theorem publishing_execution_ids {session : Session} {pubs : List String} {e : ℕ}
    {msg : Option ℕ} {sent : List (String × ℕ)} (hid : session.execution_id = e) :
    ∀ e' ∈ (Phase.publishing msg e (Sys.jobs_of session pubs) sent).execution_ids, e' = e := by
  intro e' he'
  rcases List.mem_cons.mp he' with rfl | he'
  · rfl
  · obtain ⟨job, hjob, rfl⟩ := List.mem_map.mp he'
    rw [execution_id_of_mem_jobs_of hjob, hid]

/-- Acking marks one entry and changes no job. -/
theorem getElem?_xack {stream : List StreamEntry} {m i : ℕ} {entry : StreamEntry}
    (h : (Sys.xack stream m)[i]? = some entry) :
    ∃ entry', stream[i]? = some entry' ∧
      { entry' with acked := entry'.acked || decide (i = m) } = entry := by
  unfold Sys.xack at h
  rw [List.getElem?_modify] at h
  obtain ⟨entry', hentry', heq⟩ := Option.map_eq_some_iff.mp h
  refine ⟨entry', hentry', ?_⟩
  rw [← heq]
  by_cases hm : m = i
  · simp [hm]
  · simp [hm, Ne.symm hm]

/-- The rows that `start_execution` commits. -/
theorem inserted_of {vid owner eid now : ℕ} {input : Option JsonObject} {session : Session}
    {pubs : List String}
    (h : start_execution env vid input owner eid now = .ok (session, pubs)) :
    (∃ d, session.inserted.Of env d) ∧ session.execution_id = eid := by
  obtain ⟨version, hversion, hacc, hsteps, hkeys, -, -, hvid, -⟩ := start_execution_spec h
  refine ⟨⟨version.definition, ⟨version, ?_, rfl⟩, hacc, hkeys⟩, hsteps.sameFrame.execution_id⟩
  change env.versions session.execution.workflow_version_id = _
  rw [hvid, hversion]

/-- Every step keeps the types: rows belong to a definition that was accepted, and the ids
that rows, tasks and stream entries name have been given out before. Only a start gives
out an id. -/
theorem Effect.typed {a : Action} (h : Effect env s a s') (ht : s.Typed env) :
    s'.Typed env := by
  cases h with
  | refused => exact ht
  -- the one step that gives out an id
  | @start t vid owner input session pubs hidle hok =>
      obtain ⟨⟨d, hd⟩, hid⟩ := inserted_of hok
      refine ⟨fun e rows hrows => ?_, fun e he => ?_, fun entry hentry => ?_, fun t' => ?_⟩
      · by_cases he : e = s.next_execution_id
        · subst he
          simp only [Sys.commit, Function.update_self, Option.some.injEq] at hrows
          exact ⟨d, hrows ▸ hd⟩
        · simp only [Sys.commit, Function.update_of_ne he] at hrows
          exact ht.rows e rows hrows
      · change s.next_execution_id + 1 ≤ e at he
        simp only [Sys.commit]
        rw [Function.update_of_ne (by omega)]
        exact ht.fresh e (by omega)
      · exact Nat.lt_succ_of_lt (ht.stream entry hentry)
      · intro e he
        change e ∈ (Function.update s.tasks t _ t').phase.execution_ids at he
        change e < s.next_execution_id + 1
        by_cases htt : t' = t
        · subst htt
          rw [Function.update_self] at he
          exact (publishing_execution_ids hid e he).trans_lt (Nat.lt_succ_self _)
        · rw [Function.update_of_ne htt] at he
          exact Nat.lt_succ_of_lt (ht.tasks t' e he)
  | retry hidle hrows hkey hst hsame hnodes =>
      refine ht.commit hrows rfl rfl fun e' he' => ?_
      exact (publishing_execution_ids hsame.steps.sameFrame.execution_id e' he').trans_lt
        (ht.lt hrows)
  -- the rows go, the id stays given out
  | @delete e owner =>
      refine ⟨fun e' rows hrows => ?_, fun e' he' => ?_, ht.stream, ht.tasks⟩
      · by_cases he : e' = e
        · subst he
          simp at hrows
        · simp only [Function.update_of_ne he] at hrows
          exact ht.rows e' rows hrows
      · by_cases he : e' = e
        · subst he
          simp
        · simp only [Function.update_of_ne he]
          exact ht.fresh e' he'
  | discard ha hidle hentry hgone => exact ht.park (by simp [Phase.execution_ids])
  | discard_logged ha hidle hentry hrows hst hsame hnodes =>
      exact ht.commit hrows rfl rfl (by simp [Phase.execution_ids])
  | claim ha hidle hentry hrows hkey hsame hnodes =>
      exact ht.commit hrows rfl rfl (by simpa [Phase.execution_ids] using ht.entry_lt hentry)
  | @recover_raised t m entry rows session hidle hentry hrows hsame hnodes =>
      obtain ⟨h1, h2⟩ := ht.update_rows hrows
        (r := { rows with logs := rows.logs ++ session.new_logs }) rfl rfl
      exact ⟨h1, h2, ht.stream, ht.update_tasks (by simp [Phase.execution_ids])⟩
  | recover hidle hentry hrows hkey hst hsame =>
      exact ht.commit hrows rfl rfl (by simpa [Phase.execution_ids] using ht.entry_lt hentry)
  | @reclaim t m job cached rows session htask hrows hkey hst hsame =>
      refine ht.commit hrows rfl rfl ?_
      have := ht.tasks t
      rwa [htask] at this
  | reclaim_discard htask hrows hst => exact ht.park (by simp [Phase.execution_ids])
  | stop ha hta => exact ht.park (by simp [Phase.execution_ids])
  | @invoke t m attempt job rows d node_def htask hrows hlookup =>
      refine ht.park ?_
      have := ht.tasks t
      rwa [htask] at this
  | stale hphase hrows hst => exact ht.park (by simp [Phase.execution_ids])
  | complete hphase hrows hlookup hsteps hends hdone =>
      have hframe := hsteps.sameFrame
      refine ht.commit hrows rfl hframe.keys fun e' he' => ?_
      exact (publishing_execution_ids hframe.execution_id e' he').trans_lt (ht.lt hrows)
  | @publish t e msg job owed sent events htask =>
      have hids := ht.tasks t
      rw [htask] at hids
      refine ⟨ht.rows, ht.fresh, fun entry hentry => ?_, ht.update_tasks fun e' he' => ?_⟩
      · -- the new entry is a job that the task has owed
        rcases List.mem_append.mp hentry with hentry | hentry
        · exact ht.stream entry hentry
        · rw [List.mem_singleton] at hentry
          subst hentry
          exact hids _ (by simp [Phase.execution_ids])
      · refine hids e' ?_
        simp only [Phase.execution_ids, List.map_cons, List.mem_cons] at he' ⊢
        tauto
  | @finish t e msg sent events rows htask hrows =>
      obtain ⟨h1, h2⟩ := ht.update_rows hrows
        (r := { rows with nodes := Sys.set_message_ids rows.nodes sent }) rfl rfl
      exact ⟨h1, h2, ht.stream, ht.update_tasks (by simp [Phase.execution_ids])⟩
  | finish_gone htask hrows =>
      exact ⟨ht.rows, ht.fresh, ht.stream, ht.update_tasks (by simp [Phase.execution_ids])⟩
  | @flush t phase event events htask hphase =>
      have hids := ht.tasks t
      rw [htask] at hids
      exact ⟨ht.rows, ht.fresh, ht.stream, ht.update_tasks hids⟩
  | ack htask =>
      refine ⟨ht.rows, ht.fresh, fun entry hentry => ?_,
        ht.update_tasks (by simp [Phase.execution_ids])⟩
      obtain ⟨i, hi⟩ := List.mem_iff_getElem?.mp hentry
      obtain ⟨entry', hentry', rfl⟩ := getElem?_xack hi
      exact (ht.entry_lt hentry' :)
  | reply htask => exact ht.park (by simp [Phase.execution_ids])

/-- The clock is no part of the invariant. -/
theorem typed_of_step {a : Action} (ht : s.Typed env) (h : s.step env a = some s') :
    s'.Typed env := by
  obtain ⟨u, hu, rfl⟩ := Option.map_eq_some_iff.mp h
  have := (effect_of_act ht hu).typed ht
  exact ⟨this.rows, this.fresh, this.stream, this.tasks⟩

theorem typed_init : Sys.init.Typed env :=
  ⟨by simp [Sys.init], by simp [Sys.init], by simp [Sys.init],
    by simp [Sys.init, Phase.execution_ids]⟩

/-- **Every reachable state is typed**, whatever the alphabet. No guard is needed, so this
can be used under any of them. -/
theorem typed_of_reaches {guard : Sys → Action → Prop}
    (h : Transition.Reaches (Sys.step env) guard Sys.init s) : s.Typed env :=
  h.invariant (fun s => s.Typed env) typed_init fun _ _ _ ht _ hs => typed_of_step ht hs

/-- **The invariant rule of the system.** What every guarded effect keeps, the clock
aside, holds along every guarded run. The clock may move at each step, and so an invariant
has to be kept when it does; that is separate from the effect because most invariants do
not mention it. -/
theorem Sys.invariant_of_effect {guard : Sys → Action → Prop} {s₀ : Sys} (P : Sys → Prop)
    (hrun : Transition.Reaches (Sys.step env) guard s₀ s) (ht : s₀.Typed env) (h₀ : P s₀)
    (hclock : ∀ u clock, P u → P { u with clock := clock })
    (hstep : ∀ u a v, u.Typed env → P u → guard u a → Effect env u a v → P v) : P s := by
  refine (hrun.invariant (fun u => u.Typed env ∧ P u) ⟨ht, h₀⟩ ?_).2
  rintro u a v ⟨htu, hu⟩ hg hs
  refine ⟨typed_of_step htu hs, ?_⟩
  obtain ⟨w, hw, rfl⟩ := Option.map_eq_some_iff.mp hs
  exact hclock w _ (hstep u a w htu hu hg (effect_of_act htu hw))

end Typed

/-! ## One task through a step -/

/-- How task `t` comes to be in a phase after a step. -/
inductive Comes (env : Env) (s : Sys) (a : Action) (s' : Sys) (t : ℕ) : Phase → Prop
  /-- It was there before. -/
  | stayed {phase : Phase} (hphase : (s.tasks t).phase = phase) : Comes env s a s' t phase
  | idle : Comes env s a s' t .idle
  /-- A delivered message whose node is gone or terminal. -/
  | discarded {m : ℕ} {entry : StreamEntry} (hentry : s.stream[m]? = some entry)
      (hst : ∀ rows', s'.executions entry.job.execution_id = some rows' →
        entry.job.node_id ∈ rows'.nodes.keys →
        (rows'.nodes.row entry.job.node_id).status ∈ TERMINAL_NODE_STATUSES) :
      Comes env s a s' t (.returning (some m))
  | reclaim_discarded {m : ℕ} {job : Job} {cached : NodeExecution} {rows : ExecutionRows}
      (hphase : (s.tasks t).phase = .recovered m job cached)
      (hrows : s.executions job.execution_id = some rows) (hsame : s'.executions = s.executions)
      (hst : job.node_id ∉ rows.nodes.keys ∨ cached.status ∈ TERMINAL_NODE_STATUSES) :
      Comes env s a s' t (.returning (some m))
  /-- A result that comes too late. -/
  | stale {m : ℕ} {context : ExecutionContext} {execution : Execution} {rows : ExecutionRows}
      (hphase : (s.tasks t).phase = .invoked m context execution)
      (hrows : s.executions context.execution_id = some rows)
      (hsame : s'.executions = s.executions)
      (hst : (rows.nodes.row context.node_id).status ≠ .RUNNING) :
      Comes env s a s' t (.returning (some m))
  /-- Everything has been published. -/
  | finished {msg : Option ℕ} {e : ℕ} {sent : List (String × ℕ)}
      (hphase : (s.tasks t).phase = .publishing msg e [] sent) :
      Comes env s a s' t (.returning msg)
  /-- A claim, also the one of an atomic recovery. -/
  | claimed {m : ℕ} {entry : StreamEntry} {rows rows' : ExecutionRows}
      (ha : a = .claim t m ∧ (rows.nodes.row entry.job.node_id).status = .QUEUED ∨
        a = .recover_claim t m ∧
          ((rows.nodes.row entry.job.node_id).status = .QUEUED ∨
            (rows.nodes.row entry.job.node_id).status = .RUNNING))
      (hentry : s.stream[m]? = some entry)
      (hrows : s.executions entry.job.execution_id = some rows)
      (hkey : entry.job.node_id ∈ rows.nodes.keys)
      (hrows' : s'.executions entry.job.execution_id = some rows')
      (hnodes : rows'.nodes = rows.nodes.set entry.job.node_id
        ((rows.nodes.row entry.job.node_id).enter .RUNNING s.clock)) :
      Comes env s a s' t (.claimed m entry.job (rows.nodes.row entry.job.node_id).attempt)
  /-- A claim from the cached instance of a recovered job. -/
  | reclaimed {m : ℕ} {job : Job} {cached : NodeExecution} {rows' : ExecutionRows}
      (ha : a = .reclaim t) (hphase : (s.tasks t).phase = .recovered m job cached)
      (hst : cached.status = .QUEUED) (hrows' : s'.executions job.execution_id = some rows')
      (hrun : (rows'.nodes.row job.node_id).status = .RUNNING) :
      Comes env s a s' t (.claimed m job cached.attempt)
  | recovered {m : ℕ} {entry : StreamEntry} {rows : ExecutionRows} (ha : a = .recover t m)
      (hentry : s.stream[m]? = some entry)
      (hst : (rows.nodes.row entry.job.node_id).status ∉ TERMINAL_NODE_STATUSES) :
      Comes env s a s' t (.recovered m entry.job (rows.nodes.row entry.job.node_id).revert)
  | invoked {m attempt : ℕ} {job : Job} {rows : ExecutionRows} {d : WorkflowDefinition}
      {node_def : Node} (hphase : (s.tasks t).phase = .claimed m job attempt)
      (hrows : s.executions job.execution_id = some rows)
      (hlookup : Sys.lookup env rows job.node_id = some (d, node_def))
      (hsame : s'.executions = s.executions) :
      Comes env s a s' t (.invoked m (build_context job.execution_id rows.execution rows.nodes d
        node_def job.node_id attempt) rows.execution)
  | started {vid owner : ℕ} {input : Option JsonObject} {session : Session} {pubs : List String}
      (hok : start_execution env vid input owner s.next_execution_id s.clock
        = .ok (session, pubs))
      (hrows' : s'.executions s.next_execution_id = some session.inserted) :
      Comes env s a s' t
        (.publishing none s.next_execution_id (Sys.jobs_of session pubs) [])
  | retried {e : ℕ} {n : String} {rows rows' : ExecutionRows} {session : Session}
      (hrows : s.executions e = some rows) (hkey : n ∈ rows.nodes.keys)
      (hst : (rows.nodes.row n).status = .DEAD_LETTERED)
      (hid : session.execution_id = e) (hrows' : s'.executions e = some rows')
      (hnodes : rows'.nodes = session.nodes)
      (hrow : session.nodes.row n = (rows.nodes.row n).enter .QUEUED s.clock) :
      Comes env s a s' t (.publishing none e (Sys.jobs_of session [n]) [])
  | completed {m : ℕ} {result : ExecutorResult} {context : ExecutionContext}
      {execution : Execution} {rows rows' : ExecutionRows} {d : WorkflowDefinition}
      {node_def : Node} {session : Session} {pubs : List String}
      (hphase : (s.tasks t).phase = .invoked m context execution)
      (hrows : s.executions context.execution_id = some rows)
      (hid : session.execution_id = context.execution_id)
      (hrows' : s'.executions context.execution_id = some rows')
      (hnodes : rows'.nodes = session.nodes)
      (hdone : Completed d node_def context.node_id result rows.nodes execution
        context.execution_id s.clock session pubs) :
      Comes env s a s' t
        (.publishing (some m) context.execution_id (Sys.jobs_of session pubs) [])
  | published {msg : Option ℕ} {e : ℕ} {job : Job} {owed : List Job}
      {sent sent' : List (String × ℕ)}
      (hphase : (s.tasks t).phase = .publishing msg e (job :: owed) sent) :
      Comes env s a s' t (.publishing msg e owed sent')

/-- **Where a task is after a step.** A step moves one task at most, and the constructor
of [`Effect`] says from where to where. -/
theorem Effect.comes {env : Env} {s s' : Sys} {a : Action} (h : Effect env s a s') (t : ℕ) :
    Comes env s a s' t (s'.tasks t).phase := by
  -- the task that moves is looked at, the others are where they were
  have moved : ∀ {t₀ : ℕ} {task : Task}, s'.tasks = Function.update s.tasks t₀ task →
      (t = t₀ → Comes env s a s' t task.phase) → Comes env s a s' t (s'.tasks t).phase := by
    intro t₀ task htasks hcomes
    rw [htasks]
    by_cases ht : t = t₀
    · rw [ht, Function.update_self, ← ht]
      exact hcomes ht
    · rw [Function.update_of_ne ht]
      exact .stayed rfl
  cases h with
  | refused => exact .stayed rfl
  | delete => exact .stayed rfl
  | start hidle hok =>
      exact moved rfl fun _ => .started hok (Function.update_self ..)
  | @retry t₀ e owner n rows session hidle hrows hkey hst hsame hnodes =>
      refine moved rfl fun _ => .retried hrows hkey hst hsame.steps.sameFrame.execution_id
        (Function.update_self ..) hnodes.symm ?_
      rw [hnodes, Table.row_set_self]
  | discard ha hidle hentry hgone =>
      refine moved rfl fun _ => .discarded hentry fun rows' hrows' hkey => ?_
      change s.executions _ = _ at hrows'
      rcases hgone with hnone | ⟨rows, hrows, hst⟩
      · rw [hnone] at hrows'
        cases hrows'
      · rw [hrows, Option.some.injEq] at hrows'
        subst hrows'
        exact hst.resolve_left (not_not.mpr hkey)
  | discard_logged ha hidle hentry hrows hst hsame hnodes =>
      refine moved rfl fun _ => .discarded hentry fun rows' hrows' _ => ?_
      simp only [Sys.commit, Function.update_self, Option.some.injEq] at hrows'
      subst hrows'
      exact hst
  | claim ha hidle hentry hrows hkey hsame hnodes =>
      refine moved rfl ?_
      rintro rfl
      exact .claimed ha hentry hrows hkey (Function.update_self ..) rfl
  | recover_raised => exact moved rfl fun _ => .idle
  | recover hidle hentry hrows hkey hst hsame =>
      refine moved rfl ?_
      rintro rfl
      exact .recovered rfl hentry hst
  | reclaim htask hrows hkey hst hsame =>
      refine moved rfl ?_
      rintro rfl
      refine .reclaimed rfl (by rw [htask]) hst (Function.update_self ..) ?_
      simp [NodeExecution.flush, written, hst]
  | reclaim_discard htask hrows hst =>
      refine moved rfl ?_
      rintro rfl
      exact .reclaim_discarded (by rw [htask]) hrows rfl hst
  | stop => exact moved rfl fun _ => .idle
  | invoke htask hrows hlookup =>
      refine moved rfl ?_
      rintro rfl
      exact .invoked (by rw [htask]) hrows hlookup rfl
  | stale hphase hrows hst =>
      refine moved rfl ?_
      rintro rfl
      exact .stale hphase hrows rfl hst
  | complete hphase hrows hlookup hsteps hends hdone =>
      refine moved rfl ?_
      rintro rfl
      exact .completed hphase hrows hsteps.sameFrame.execution_id (Function.update_self ..) rfl
        hdone
  | publish htask =>
      refine moved rfl ?_
      rintro rfl
      exact .published (by rw [htask])
  | finish htask hrows =>
      refine moved rfl ?_
      rintro rfl
      exact .finished (by rw [htask])
  | finish_gone htask hrows =>
      refine moved rfl ?_
      rintro rfl
      exact .finished (by rw [htask])
  | flush htask hphase =>
      -- a flush moves no task
      refine moved rfl ?_
      rintro rfl
      exact .stayed (by rw [htask])
  | ack => exact moved rfl fun _ => .idle
  | reply => exact moved rfl fun _ => .idle

/-! ## The rows of one execution through a step -/

/-- How the rows of execution `e` come to be what they are after a step. -/
inductive Wrote (env : Env) (s : Sys) (a : Action) (s' : Sys) (e : ℕ) : ExecutionRows → Prop
  /-- They were so before. -/
  | same {rows : ExecutionRows} (hrows : s.executions e = some rows) : Wrote env s a s' e rows
  | inserted {t vid owner : ℕ} {input : Option JsonObject} {session : Session}
      {pubs : List String} (ha : a = .start t vid input owner) (he : e = s.next_execution_id)
      (hok : start_execution env vid input owner e s.clock = .ok (session, pubs))
      (htask : s'.tasks t = ⟨.publishing none e (Sys.jobs_of session pubs) [],
        session.ws_events⟩) :
      Wrote env s a s' e session.inserted
  | retried {t owner : ℕ} {n : String} {rows : ExecutionRows} {session : Session}
      {logs : List ExecutionLog} (ha : a = .retry t e n owner)
      (hrows : s.executions e = some rows) (hkey : n ∈ rows.nodes.keys)
      (hst : (rows.nodes.row n).status = .DEAD_LETTERED) (hid : session.execution_id = e)
      (hrow : session.nodes.row n = (rows.nodes.row n).enter .QUEUED s.clock)
      (htask : s'.tasks t = ⟨.publishing none e (Sys.jobs_of session [n]) [],
        session.ws_events⟩) :
      Wrote env s a s' e { rows with
        nodes := rows.nodes.set n ((rows.nodes.row n).enter .QUEUED s.clock)
        dead_letter_jobs := resolve_jobs rows.dead_letter_jobs n s.clock
        logs := logs }
  /-- A recovery that only leaves a log row. -/
  | logged {rows : ExecutionRows} {logs : List ExecutionLog}
      (hrows : s.executions e = some rows) : Wrote env s a s' e { rows with logs }
  | claimed {t m : ℕ} {entry : StreamEntry} {rows : ExecutionRows} {logs : List ExecutionLog}
      (ha : a = .claim t m ∧ (rows.nodes.row entry.job.node_id).status = .QUEUED ∨
        a = .recover_claim t m ∧
          ((rows.nodes.row entry.job.node_id).status = .QUEUED ∨
            (rows.nodes.row entry.job.node_id).status = .RUNNING))
      (hentry : s.stream[m]? = some entry) (he : entry.job.execution_id = e)
      (hrows : s.executions e = some rows) (hkey : entry.job.node_id ∈ rows.nodes.keys) :
      Wrote env s a s' e { rows with
        nodes := rows.nodes.set entry.job.node_id
          ((rows.nodes.row entry.job.node_id).enter .RUNNING s.clock)
        logs := logs }
  | reverted {t m : ℕ} {entry : StreamEntry} {rows : ExecutionRows} {logs : List ExecutionLog}
      (ha : a = .recover t m) (hentry : s.stream[m]? = some entry)
      (he : entry.job.execution_id = e) (hrows : s.executions e = some rows) :
      Wrote env s a s' e { rows with
        nodes := rows.nodes.set entry.job.node_id (rows.nodes.row entry.job.node_id).revert
        logs := logs }
  | reclaimed {t m : ℕ} {job : Job} {cached : NodeExecution} {rows : ExecutionRows}
      {logs : List ExecutionLog} (ha : a = .reclaim t)
      (hphase : (s.tasks t).phase = .recovered m job cached) (he : job.execution_id = e)
      (hrows : s.executions e = some rows) (hst : cached.status = .QUEUED) :
      Wrote env s a s' e { rows with
        nodes := rows.nodes.set job.node_id
          (cached.flush (cached.enter .RUNNING s.clock) (rows.nodes.row job.node_id))
        logs := logs }
  | completed {t m : ℕ} {result : ExecutorResult} {context : ExecutionContext}
      {execution : Execution} {rows : ExecutionRows} {d : WorkflowDefinition}
      {node_def : Node} {session : Session} {pubs : List String} {logs : List ExecutionLog}
      (ha : a = .complete t result) (hphase : (s.tasks t).phase = .invoked m context execution)
      (he : context.execution_id = e) (hrows : s.executions e = some rows)
      (hlookup : Sys.lookup env rows context.node_id = some (d, node_def))
      (hframe : Session.SameFrame (rows.refresh execution e s.clock) session)
      (hends : Ends (rows.refresh execution e s.clock) session)
      (hdone : Completed d node_def context.node_id result rows.nodes execution e s.clock
        session pubs)
      (htask : s'.tasks t = ⟨.publishing (some m) e (Sys.jobs_of session pubs) [],
        session.ws_events⟩) :
      Wrote env s a s' e
        { execution := execution.flush session.execution rows.execution
          nodes := session.nodes
          dead_letter_jobs := rows.dead_letter_jobs ++ session.new_dead_letter_jobs
          logs := logs }
  /-- The message ids of the published nodes. -/
  | ids {rows : ExecutionRows} (sent : List (String × ℕ)) (hrows : s.executions e = some rows) :
      Wrote env s a s' e { rows with nodes := Sys.set_message_ids rows.nodes sent }

/-- **What the rows of an execution are after a step.** A step writes the rows of one
execution at most. The cases differ in what they say of the rows before, which [`Wrote`]
keeps. -/
theorem Effect.wrote {env : Env} {s s' : Sys} {a : Action} {e : ℕ} {rows' : ExecutionRows}
    (h : Effect env s a s') (hrows' : s'.executions e = some rows') :
    Wrote env s a s' e rows' := by
  -- a step that updates the rows of `e₀` changes no other rows
  have wrote : ∀ {e₀ : ℕ} {rows₁ : ExecutionRows},
      s'.executions = Function.update s.executions e₀ (some rows₁) →
      (e = e₀ → Wrote env s a s' e rows₁) → Wrote env s a s' e rows' := by
    intro e₀ rows₁ hupdate hnew
    rw [hupdate] at hrows'
    by_cases he : e = e₀
    · rw [he, Function.update_self, Option.some.injEq] at hrows'
      exact hrows' ▸ hnew he
    · rw [Function.update_of_ne he] at hrows'
      exact .same hrows'
  cases h with
  | start hidle hok =>
      refine wrote rfl ?_
      rintro rfl
      exact .inserted rfl rfl hok (Function.update_self ..)
  | retry hidle hrows hkey hst hsame hnodes =>
      refine wrote rfl ?_
      rintro rfl
      refine .retried rfl hrows hkey hst hsame.steps.sameFrame.execution_id ?_
        (Function.update_self ..)
      rw [hnodes, Table.row_set_self]
  | @delete e₀ owner =>
      by_cases he : e = e₀
      · subst he
        simp at hrows'
      · simp only [Function.update_of_ne he] at hrows'
        exact .same hrows'
  | discard_logged ha hidle hentry hrows hst hsame hnodes =>
      refine wrote rfl ?_
      rintro rfl
      exact .logged hrows
  | claim ha hidle hentry hrows hkey hsame hnodes =>
      refine wrote rfl ?_
      rintro rfl
      exact .claimed ha hentry rfl hrows hkey
  | recover_raised hidle hentry hrows hsame hnodes =>
      refine wrote rfl ?_
      rintro rfl
      exact .logged hrows
  | recover hidle hentry hrows hkey hst hsame =>
      refine wrote rfl ?_
      rintro rfl
      exact .reverted rfl hentry rfl hrows
  | reclaim htask hrows hkey hst hsame =>
      refine wrote rfl ?_
      rintro rfl
      exact .reclaimed rfl (by rw [htask]) rfl hrows hst
  | complete hphase hrows hlookup hsteps hends hdone =>
      refine wrote rfl ?_
      rintro rfl
      exact .completed rfl hphase rfl hrows hlookup hsteps.sameFrame hends hdone
        (Function.update_self ..)
  | finish htask hrows =>
      refine wrote rfl ?_
      rintro rfl
      exact .ids _ hrows
  | _ => exact .same hrows'

/-! ## The same, in the atomic alphabet -/

/-- What a step of the atomic alphabet can do to the rows of a stored
execution. -/
inductive RowsStep (s : Sys) (a : Action) (e : ℕ) (d : WorkflowDefinition) :
    ExecutionRows → ExecutionRows → Prop
  /-- At most log rows and message ids are written. -/
  | quiet {rows rows' : ExecutionRows} (hexec : rows'.execution = rows.execution)
      (hkeys : rows'.nodes.keys = rows.nodes.keys)
      (hrow : ∀ n, ∃ id, rows'.nodes.row n = { rows.nodes.row n with redis_message_id := id })
      (hdead : rows'.dead_letter_jobs = rows.dead_letter_jobs) : RowsStep s a e d rows rows'
  /-- A node is started. -/
  | run {rows : ExecutionRows} {logs : List ExecutionLog} (n : String)
      (hkey : n ∈ rows.nodes.keys)
      (hst : (rows.nodes.row n).status = .QUEUED ∨ (rows.nodes.row n).status = .RUNNING) :
      RowsStep s a e d rows { rows with
        nodes := rows.nodes.set n ((rows.nodes.row n).enter .RUNNING s.clock), logs := logs }
  /-- `retry_node`. -/
  | retry {rows : ExecutionRows} {logs : List ExecutionLog} (n : String)
      (hkey : n ∈ rows.nodes.keys) (hst : (rows.nodes.row n).status = .DEAD_LETTERED)
      (ha : ∃ t owner, a = .retry t e n owner) :
      RowsStep s a e d rows { rows with
        nodes := rows.nodes.set n ((rows.nodes.row n).enter .QUEUED s.clock)
        dead_letter_jobs := resolve_jobs rows.dead_letter_jobs n s.clock
        logs := logs }
  /-- A completion by a task that holds the instance `execution`. -/
  | complete {rows : ExecutionRows} {logs : List ExecutionLog} {t m : ℕ}
      {result : ExecutorResult} {context : ExecutionContext} {execution : Execution}
      {node_def : Node} {session : Session} {pubs : List String}
      (ha : a = .complete t result) (hphase : (s.tasks t).phase = .invoked m context execution)
      (he : context.execution_id = e)
      (hdef : d.node_def_by_id context.node_id = some node_def)
      (hframe : Session.SameFrame (rows.refresh execution e s.clock) session)
      (hends : Ends (rows.refresh execution e s.clock) session)
      (hdone : Completed d node_def context.node_id result rows.nodes execution e s.clock
        session pubs) :
      RowsStep s a e d rows
        { execution := execution.flush session.execution rows.execution
          nodes := session.nodes
          dead_letter_jobs := rows.dead_letter_jobs ++ session.new_dead_letter_jobs
          logs := logs }

theorem RowsStep.refl (s : Sys) (a : Action) (e : ℕ) (d : WorkflowDefinition)
    (rows : ExecutionRows) : RowsStep s a e d rows rows := .quiet rfl rfl (fun _ => ⟨_, rfl⟩) rfl

/-- Recording message ids touches nothing else. -/
theorem row_set_message_ids (nodes : Table String NodeExecution) (sent : List (String × ℕ))
    (n : String) : ∃ id, (Sys.set_message_ids nodes sent).row n
      = { nodes.row n with redis_message_id := id } := by
  simp only [Sys.set_message_ids]
  split
  · exact ⟨_, rfl⟩
  · exact ⟨_, rfl⟩

/-- **What a step does to one execution.** Its rows are new, or they were there before and
changed by a `RowsStep`. In the atomic alphabet a node row is read in the step that writes
it, so the rows before the step say everything; only a completion goes back to an earlier
instance, that of the execution. -/
theorem Effect.rowsStep {env : Env} {s s' : Sys} {a : Action} {e : ℕ}
    {rows' : ExecutionRows} (h : Effect env s a s') (ht : s.Typed env) (ha : a.atomic = true)
    (hrows' : s'.executions e = some rows') :
    (∃ t vid input owner session pubs, a = .start t vid input owner ∧
      e = s.next_execution_id ∧
      start_execution env vid input owner s.next_execution_id s.clock = .ok (session, pubs) ∧
      rows' = session.inserted) ∨
    ∃ rows d, s.executions e = some rows ∧ rows.Of env d ∧ RowsStep s a e d rows rows' := by
  -- rows that were there before have a definition
  have step : ∀ {rows : ExecutionRows}, s.executions e = some rows →
      (∀ d, rows.Of env d → RowsStep s a e d rows rows') →
      ∃ rows d, s.executions e = some rows ∧ rows.Of env d ∧ RowsStep s a e d rows rows' := by
    intro rows hrows hstep
    obtain ⟨d, hd⟩ := ht.rows e rows hrows
    exact ⟨rows, d, hrows, hd, hstep d hd⟩
  cases h.wrote hrows' with
  | same hrows => exact .inr (step hrows fun d _ => .refl s a e d rows')
  | inserted hstart he hok htask =>
      subst he
      exact .inl ⟨_, _, _, _, _, _, hstart, rfl, hok, rfl⟩
  | retried hretry hrows hkey hst hid hrow htask =>
      exact .inr (step hrows fun d _ => .retry _ hkey hst ⟨_, _, hretry⟩)
  | logged hrows => exact .inr (step hrows fun d _ => .quiet rfl rfl (fun _ => ⟨_, rfl⟩) rfl)
  | claimed hclaim hentry he hrows hkey =>
      refine .inr (step hrows fun d _ => .run _ hkey ?_)
      rcases hclaim with ⟨-, hst⟩ | ⟨-, hst⟩
      · exact .inl hst
      · exact hst
  | reverted hrecover =>
      rw [hrecover] at ha
      cases ha
  | reclaimed hreclaim =>
      rw [hreclaim] at ha
      cases ha
  | completed hcomplete hphase he hrows hlookup hframe hends hdone htask =>
      refine .inr (step hrows fun d hd => ?_)
      obtain ⟨rfl, hdef⟩ := hd.lookup hlookup
      exact .complete hcomplete hphase he hdef hframe hends hdone
  | ids sent hrows =>
      exact .inr (step hrows fun d _ => .quiet rfl rfl (row_set_message_ids _ _) rfl)

end EventFlow
