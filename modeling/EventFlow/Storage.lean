/-
The engine on its tables.

[`engine_stored`] follows every run of the engine with calls of the services and
commits of workers, so that the tables hold in each state what the engine believes
to be stored, and the API answers with it. What has been proved of reachable
tables (their keys, the isolation of tenants) thereby holds while the engine runs.

What a step stores is said by [`Stores`], one case for each kind of commit.
-/
import EventFlow.TableParts
import EventFlow.Replay
import EventFlow.WorkflowDeletion
import Mathlib.Data.Countable.Basic
import Mathlib.Logic.Equiv.List

set_option autoImplicit false

namespace EventFlow

open Transition

/-! ## What a step stores -/

section Stores

variable {env : Env} {s s' : Sys} {rows rows' : ExecutionRows} {n : String}

/-- The rows are not touched, or the message ids only. -/
theorem ExecutionRows.Extends.of_nodes {nodes : Table String NodeExecution}
    (h : nodes.keys = rows.nodes.keys) : rows.Extends { rows with nodes := nodes } where
  workflow_id := rfl
  version := rfl
  input := rfl
  keys := h
  logs := ⟨[], by simp, by simp⟩
  jobs := ⟨[], by simp, by simp⟩

/-- A commit that writes about one node. -/
theorem ExecutionRows.Extends.commit {loaded session : Session} {entries : List Entry}
    (hkey : n ∈ rows.nodes.keys) (hwrites : loaded.Writes session n entries)
    (hnil : loaded.new_logs = []) (hjobs : ∀ job ∈ session.new_dead_letter_jobs, job.node_id = n) :
    rows.Extends (rows.commit loaded session) where
  workflow_id := rfl
  version := rfl
  input := rfl
  keys := rfl
  logs := by
    obtain ⟨logs, hlogs, hid, -⟩ := hwrites
    rw [hnil, List.nil_append] at hlogs
    refine ⟨session.new_logs, rfl, fun log hlog m hm => ?_⟩
    rw [hid log (hlogs ▸ hlog)] at hm
    cases hm
    exact hkey
  jobs := ⟨session.new_dead_letter_jobs, rfl, fun job hjob => by rwa [hjobs job hjob]⟩

/-- What a step does to the stored rows. -/
inductive Stores (env : Env) (s : Sys) : Action → Sys → Prop
  /-- Nothing. -/
  | same {a : Action} {s' : Sys} (h : s'.executions = s.executions)
      (hnext : s'.next_execution_id = s.next_execution_id) : Stores env s a s'
  | started {t vid owner : ℕ} {input : Option JsonObject} {s' : Sys} {session : Session}
      {pubs : List String}
      (hok : start_execution env vid input owner s.next_execution_id s.clock
        = .ok (session, pubs))
      (h : s'.executions
        = Function.update s.executions s.next_execution_id (some session.inserted))
      (hnext : s'.next_execution_id = s.next_execution_id + 1) :
      Stores env s (.start t vid input owner) s'
  | retried {t e owner : ℕ} {n : String} {s' : Sys} {rows : ExecutionRows}
      (hrows : s.executions e = some rows)
      (hretry : Retryable env (rows.load e s.clock) n owner)
      (hone : (unresolved rows.dead_letter_jobs n).length < 2)
      (h : s'.executions = Function.update s.executions e (some { rows with
        nodes := rows.nodes.set n ((rows.nodes.row n).enter .QUEUED s.clock)
        dead_letter_jobs := resolve_jobs rows.dead_letter_jobs n s.clock }))
      (hnext : s'.next_execution_id = s.next_execution_id) :
      Stores env s (.retry t e n owner) s'
  | deleted {e owner : ℕ} {s' : Sys} {rows : ExecutionRows}
      (hrows : s.executions e = some rows)
      (howner : delete_execution env rows.execution owner = true)
      (h : s'.executions = Function.update s.executions e none)
      (hnext : s'.next_execution_id = s.next_execution_id) :
      Stores env s (.delete e owner) s'
  /-- A commit of a worker. -/
  | worked {a : Action} {e : ℕ} {s' : Sys} {rows rows' : ExecutionRows}
      (hrows : s.executions e = some rows) (hext : rows.Extends rows')
      (h : s'.executions = Function.update s.executions e (some rows'))
      (hnext : s'.next_execution_id = s.next_execution_id) : Stores env s a s'

theorem start_stores {t vid owner : ℕ} {input : Option JsonObject}
    (h : s.start env t vid input owner = some s') :
    Stores env s (.start t vid input owner) s' := by
  unfold Sys.start at h
  split at h
  · split at h
    · cases h
      exact .same rfl rfl
    · rename_i session pubs hok
      cases h
      exact .started hok rfl rfl
  · cases h

theorem retry_stores {t e owner : ℕ} (h : s.retry env t e n owner = some s') :
    Stores env s (.retry t e n owner) s' := by
  unfold Sys.retry at h
  split at h
  · split at h
    · cases h
      exact .same rfl rfl
    · rename_i rows hrows
      dsimp only at h
      split at h
      · cases h
        exact .same rfl rfl
      · rename_i session jobs hok
        cases h
        obtain ⟨hretry, htr, hsame, hnodes, rfl⟩ := retry_node_ok hok
        have hone : (unresolved rows.dead_letter_jobs n).length < 2 := by
          obtain ⟨_, -, -, -, hrun⟩ := retry_node_of_retryable rows.dead_letter_jobs hretry
          by_contra htwo
          rw [hrun, if_pos (not_lt.mp htwo)] at hok
          cases hok
        refine .retried hrows hretry hone ?_ rfl
        have hlogs : session.new_logs = [] := transition_new_logs htr
        rw [commit_of_sameButNodes hsame, hnodes, hlogs, List.append_nil]
        rfl
  · cases h

theorem delete_stores {e owner : ℕ} (h : s.delete env e owner = some s') :
    Stores env s (.delete e owner) s' := by
  unfold Sys.delete at h
  split at h
  · cases h
    exact .same rfl rfl
  · rename_i rows hrows
    split at h
    · rename_i howner
      cases h
      exact .deleted hrows howner rfl rfl
    · cases h
      exact .same rfl rfl

/-- A claim writes about the node it claims. -/
theorem ExecutionRows.Extends.claim {loaded session : Session}
    (hkeys : loaded.nodes.keys = rows.nodes.keys) (hlogs : loaded.new_logs = [])
    (hjobs : loaded.new_dead_letter_jobs = [])
    (h : process_job_claim loaded n = .committed session) :
    rows.Extends (rows.commit loaded session) := by
  obtain ⟨hkey, -, hsame, -⟩ := process_job_claim_committed h
  refine .commit (hkeys ▸ hkey) (process_job_claim_writes h) hlogs fun job hjob => ?_
  rw [hsame.new_dead_letter_jobs, hjobs] at hjob
  cases hjob

/-- Recovery writes about the node of the job. -/
theorem ExecutionRows.Extends.recover {e now m : ℕ} {session : Session}
    (h : process_recovered_job (rows.load e now) n m = .terminal session ∨
      process_recovered_job (rows.load e now) n m = .proceed session) :
    rows.Extends (rows.commit (rows.load e now) session) := by
  have hboth : n ∈ rows.nodes.keys ∧ session.new_dead_letter_jobs = [] := by
    rcases h with h | h
    · obtain ⟨hkey, -, rfl⟩ := process_recovered_job_terminal h
      exact ⟨hkey, rfl⟩
    · obtain ⟨hkey, -, hsame, -⟩ := process_recovered_job_proceed h
      exact ⟨hkey, hsame.new_dead_letter_jobs⟩
  refine .commit hboth.1 (process_recovered_job_writes h) rfl fun job hjob => ?_
  rw [hboth.2] at hjob
  cases hjob

theorem claim_stores {t m : ℕ} (h : s.claim t m = some s') : Stores env s (.claim t m) s' := by
  unfold Sys.claim at h
  split at h
  · split at h
    · cases h
      exact .same rfl rfl
    · rename_i rows hrows
      dsimp only at h
      split at h
      · cases h
        exact .same rfl rfl
      · cases h
        exact .same rfl rfl
      · rename_i session hok
        cases h
        exact .worked hrows (.claim rfl rfl rfl hok) rfl rfl
  · cases h

theorem recover_stores {t m : ℕ} (h : s.recover t m = some s') :
    Stores env s (.recover t m) s' := by
  unfold Sys.recover at h
  split at h
  · split at h
    · cases h
      exact .same rfl rfl
    · rename_i rows hrows
      dsimp only at h
      split at h
      · cases h
        exact .same rfl rfl
      · rename_i session hterm
        cases h
        exact .worked hrows (.recover (.inl hterm)) rfl rfl
      · rename_i session hproc
        cases h
        exact .worked hrows (.recover (.inr hproc)) rfl rfl
  · cases h

theorem reclaim_stores {t : ℕ} (h : s.reclaim t = some s') : Stores env s (.reclaim t) s' := by
  unfold Sys.reclaim at h
  split at h
  · split at h
    · cases h
      exact .same rfl rfl
    · rename_i rows hrows
      dsimp only at h
      split at h
      · cases h
        exact .same rfl rfl
      · cases h
        exact .same rfl rfl
      · rename_i session hok
        cases h
        exact .worked hrows (.claim rfl rfl rfl hok) rfl rfl
  · cases h

/-- The recovery of a job and its claim in one step. If anything is written, it is logs
and the row of the node. -/
theorem recover_claim_stores {t m : ℕ} (h : s.recover_claim t m = some s') :
    Stores env s (.recover_claim t m) s' := by
  unfold Sys.recover_claim at h
  split at h
  · split at h
    · cases h
      exact .same rfl rfl
    · rename_i rows hrows
      dsimp only at h
      split at h
      · cases h
        exact .same rfl rfl
      · rename_i session hterm
        cases h
        exact .worked hrows (.recover (.inl hterm)) rfl rfl
      · rename_i session hproc
        split at h
        · cases h
          exact .worked hrows (.recover (.inr hproc)) rfl rfl
        · cases h
          exact .worked hrows (.recover (.inr hproc)) rfl rfl
        · -- the session of the recovery goes on to claim
          rename_i session' hok
          cases h
          obtain ⟨hkey, -, hsame, -⟩ := process_recovered_job_proceed hproc
          obtain ⟨-, -, hsame', -⟩ := process_job_claim_committed hok
          refine .worked hrows (.commit hkey ((process_recovered_job_writes (.inr hproc)).trans
            (process_job_claim_writes hok)) rfl fun job hjob => ?_) rfl rfl
          rw [(hsame.trans hsame').new_dead_letter_jobs] at hjob
          cases hjob
  · cases h

/-- A completion that commits extends the rows it has loaded: it changes no key and no id,
and its new logs and dead letters name nodes of this execution. If it raises, or the node
is not RUNNING any more, nothing is stored. -/
theorem complete_stores {t : ℕ} {result : ExecutorResult} (ht : s.Typed env)
    (h : s.complete env t result = some s') : Stores env s (.complete t result) s' := by
  unfold Sys.complete at h
  split at h
  · rename_i m context execution hphase
    split at h
    · cases h
      exact .same rfl rfl
    · rename_i rows hrows
      split at h
      · cases h
        exact .same rfl rfl
      · rename_i d node_def hlookup
        dsimp only at h
        split at h
        · cases h
          exact .same rfl rfl
        · cases h
          exact .same rfl rfl
        · rename_i session pubs hok
          cases h
          obtain ⟨d', hd⟩ := ht.rows _ _ hrows
          obtain ⟨rfl, -⟩ := hd.lookup hlookup
          obtain ⟨hsteps, -, hdone⟩ := process_job_complete_committed (by
            intro c _ p hp
            rw [hd.2.2]
            exact hd.wellFormed.parent_mem hp) hok
          have hget : (rows.refresh execution context.execution_id s.clock).nodes.get?
              context.node_id = some (rows.nodes.row context.node_id) :=
            Table.get?_of_mem hdone.running.1
          refine .worked hrows (.commit hdone.running.1
            (complete_node_writes hget (complete_node_of_committed hdone.running hok)) rfl
            fun job hjob => ?_) rfl rfl
          cases hdone with
          | succeed _ _ _ _ _ _ _ hdead => rw [hdead] at hjob; cases hjob
          | requeue _ _ _ _ _ hdead => rw [hdead] at hjob; cases hjob
          | bury _ _ _ _ _ hdead =>
              rw [hdead] at hjob
              rw [List.mem_singleton.mp hjob]
  · cases h

/-- The actions whose commit is more than message ids. -/
def Action.commits : Action → Bool
  | .start .. | .retry .. | .delete .. | .claim .. | .recover .. | .reclaim .. => true
  | .recover_claim .. | .complete .. => true
  | _ => false

theorem Effect.stores_of_quiet {a : Action} (h : Effect env s a s') (ha : a.commits = false) :
    Stores env s a s' := by
  cases h with
  | start => cases ha
  | retry => cases ha
  | delete => cases ha
  | discard_logged hrec => rcases hrec with rfl | rfl <;> cases ha
  | claim hclaim => rcases hclaim with ⟨rfl, -⟩ | ⟨rfl, -⟩ <;> cases ha
  | recover_raised => cases ha
  | recover => cases ha
  | reclaim => cases ha
  | complete => cases ha
  | @finish t e msg sent events rows htask hrows =>
      have hkeys : (Sys.set_message_ids rows.nodes sent).keys = rows.nodes.keys := rfl
      exact .worked hrows (.of_nodes hkeys) rfl rfl
  | _ => exact .same rfl rfl

/-- **What a step stores.** The actions that are not named here commit the message ids of
a publish or nothing, and this is read off [`Effect`] at once. -/
theorem stores_of_act {a : Action} (ht : s.Typed env) (h : s.act env a = some s') :
    Stores env s a s' := by
  cases a with
  | start t vid input owner => exact start_stores h
  | retry t e n owner => exact retry_stores h
  | delete e owner => exact delete_stores h
  | claim t m => exact claim_stores h
  | recover t m => exact recover_stores h
  | reclaim t => exact reclaim_stores h
  | recover_claim t m => exact recover_claim_stores h
  | complete t result => exact complete_stores ht h
  | _ => exact (effect_of_act ht h).stores_of_quiet rfl

end Stores

/-! ## The engine on tables -/

section Engine

variable {senv : ServiceEnv} {t t' t₀ : Tables} {pk : ℕ → String → ℕ} {s s' : Sys}

/-- What the services ask of a call: a payload is given, and an attempt fits its
column. -/
def Sys.fits (s : Sys) : Action → Bool
  | .start _ _ input _ => input.isSome
  | .retry _ e n _ =>
    match s.executions e with
    | none => true
    | some rows => decide ((rows.nodes.row n).attempt + 1 < 2 ^ 31)
  | _ => true

/-- The engine and its tables. Workflows are left alone. -/
structure Sys.StoredIn (senv : ServiceEnv) (t₀ : Tables) (pk : ℕ → String → ℕ) (s : Sys)
    (t : Tables) : Prop where
  typed : s.Typed (t₀.engine_env senv)
  workflow : ∀ e rows, s.executions e = some rows → ∃ version,
    (t₀.engine_env senv).versions rows.execution.workflow_version_id = some version ∧
      version.workflow_id = rows.execution.workflow_id
  inv : TablesInv t
  workflows : t.workflows = t₀.workflows
  versions : t.workflow_versions = t₀.workflow_versions
  holds : t.Holds pk s.executions

theorem engine_env_congr (hworkflows : t.workflows = t₀.workflows)
    (hversions : t.workflow_versions = t₀.workflow_versions) :
    t.engine_env senv = t₀.engine_env senv := by
  unfold Tables.engine_env
  rw [hworkflows, hversions]

/-- The engine and the services agree on owners. -/
theorem Sys.StoredIn.owns_iff (h : s.StoredIn senv t₀ pk t) {e owner : ℕ} {rows : ExecutionRows}
    (hrows : s.executions e = some rows) :
    t.owns_workflow owner rows.execution.workflow_id = true ↔
      (t₀.engine_env senv).owner rows.execution = some owner := by
  obtain ⟨found, hfound, hid⟩ := h.workflow e rows hrows
  obtain ⟨version, workflow, -, hworkflow, -, hwid, hwowner⟩ := engine_env_versions hfound
  have hmem : workflow ∈ t.workflows := h.workflows ▸ List.mem_of_find?_eq_some hworkflow
  unfold Env.owner
  rw [hfound, Option.map_some, Option.some.injEq, hwowner, ← hid, hwid]
  constructor
  · intro howns
    obtain ⟨row, hrow, hkey⟩ := List.any_eq_true.mp howns
    obtain ⟨hrow_id, hrow_owner⟩ := of_decide_eq_true hkey
    rw [← Selection.eq_of_key h.inv.workflow_ids hrow hmem hrow_id, hrow_owner]
  · intro howner
    exact List.any_eq_true.mpr ⟨workflow, hmem, decide_eq_true ⟨rfl, howner⟩⟩

/-- Rows of the same workflow and version are written. -/
theorem Sys.StoredIn.workflow_update (h : s.StoredIn senv t₀ pk t) {e : ℕ}
    {rows : ExecutionRows} {r : Option ExecutionRows} (hrows : s.executions e = some rows)
    (hr : ∀ rows' ∈ r, rows'.execution.workflow_id = rows.execution.workflow_id ∧
      rows'.execution.workflow_version_id = rows.execution.workflow_version_id) :
    ∀ e' rows', Function.update s.executions e r e' = some rows' → ∃ version,
      (t₀.engine_env senv).versions rows'.execution.workflow_version_id = some version ∧
        version.workflow_id = rows'.execution.workflow_id := by
  intro e' rows' hrows'
  by_cases he : e' = e
  · rw [he, Function.update_self] at hrows'
    obtain ⟨hwid, hvid⟩ := hr rows' hrows'
    rw [hwid, hvid]
    exact h.workflow e rows hrows
  · rw [Function.update_of_ne he] at hrows'
    exact h.workflow e' rows' hrows'

/-- **A step of the engine on the tables.** One case for each kind of commit. For a call
the service is run on the tables, and its result compared with what the engine stores; for
a transaction of a worker the rows are compared, and any extension of them can be written
([`exists_worker_write`]). -/
theorem Sys.StoredIn.step (hpk : Function.Injective2 pk) {a : Action}
    (h : s.StoredIn senv t₀ pk t) (hfits : s.fits a = true)
    (hs : s.step (t₀.engine_env senv) a = some s') :
    ∃ t', Reaches (Tables.step senv) (fun _ _ => True) t t' ∧ s'.StoredIn senv t₀ pk t' := by
  have htyped := typed_of_step h.typed hs
  obtain ⟨u, hu, rfl⟩ := Option.map_eq_some_iff.mp hs
  have henv : t.engine_env senv = t₀.engine_env senv := engine_env_congr h.workflows h.versions
  cases stores_of_act h.typed hu with
  | same hsame hnext =>
      exact ⟨t, .refl, htyped, hsame ▸ h.workflow, h.inv, h.workflows, h.versions,
        hsame ▸ h.holds⟩
  -- three calls of the services
  | @started task vid owner input _ session pubs hok hupdate hnext =>
      obtain ⟨payload, rfl⟩ := Option.isSome_iff_exists.mp hfits
      obtain ⟨found, hfound, -, hsteps, -, -, -, hvid, -⟩ := start_execution_spec hok
      rw [← henv] at hok
      obtain ⟨c, t', hcall, hholds, hworkflows, hversions⟩ := h.holds.start hpk
        (h.typed.fresh _ le_rfl) hok
      refine ⟨t', .single (.call owner c) trivial (congrArg some hcall), htyped, ?_,
        hcall ▸ (call_effect senv t owner c).inv h.inv, hworkflows.trans h.workflows,
        hversions.trans h.versions, ?_⟩
      · intro e rows hrows
        change u.executions e = some rows at hrows
        rw [hupdate] at hrows
        by_cases he : e = s.next_execution_id
        · rw [he, Function.update_self, Option.some.injEq] at hrows
          subst hrows
          refine ⟨found, ?_, hsteps.sameFrame.workflow_id.symm⟩
          change (t₀.engine_env senv).versions session.execution.workflow_version_id = _
          rw [hvid, hfound]
        · rw [Function.update_of_ne he] at hrows
          exact h.workflow e rows hrows
      · change t'.Holds pk u.executions
        rw [hupdate]
        exact hholds
  | @retried task e owner n _ rows hrows hretry hone hupdate hnext =>
      obtain ⟨node, hget, howner, hst⟩ := hretry
      obtain ⟨hkey, rfl⟩ := Table.get?_eq_some_iff.mp hget
      have hattempt : (rows.nodes.row n).attempt + 1 < 2 ^ 31 := by
        simp only [Sys.fits, hrows] at hfits
        exact of_decide_eq_true hfits
      obtain ⟨hholds, hworkflows, hversions⟩ := h.holds.retry hpk h.inv hrows
        ((h.owns_iff hrows).mpr howner) hkey hst hone hattempt
      refine ⟨_, .single (.call owner (.retry_node e n s.clock none)) trivial rfl, htyped, ?_,
        (call_effect senv t owner (.retry_node e n s.clock none)).inv h.inv,
        hworkflows.trans h.workflows, hversions.trans h.versions, ?_⟩
      · change ∀ e' rows', u.executions e' = some rows' → _
        rw [hupdate]
        refine h.workflow_update hrows fun rows' hr => ?_
        cases hr
        exact ⟨rfl, rfl⟩
      · change Tables.Holds _ pk u.executions
        rw [hupdate]
        exact hholds
  | @deleted e owner _ rows hrows howner hupdate hnext =>
      obtain ⟨hholds, hworkflows, hversions⟩ := h.holds.delete hpk hrows
        ((h.owns_iff hrows).mpr (of_decide_eq_true howner))
      refine ⟨_, .single (.call owner (.delete_execution e)) trivial rfl, htyped, ?_,
        (call_effect senv t owner (.delete_execution e)).inv h.inv,
        hworkflows.trans h.workflows, hversions.trans h.versions, ?_⟩
      · change ∀ e' rows', u.executions e' = some rows' → _
        rw [hupdate]
        refine h.workflow_update hrows fun rows' hr => ?_
        cases hr
      · change Tables.Holds _ pk u.executions
        rw [hupdate]
        exact hholds
  -- everything else is written by a worker
  | @worked _ e _ rows rows' hrows hext hupdate hnext =>
      obtain ⟨w, t', hwrite, hself, hother, hworkflows, hversions⟩ :=
        exists_worker_write (h.holds.part_eq hrows) hext
      refine ⟨t', .single (.worker w) trivial hwrite, htyped, ?_, worker_write_inv hwrite h.inv,
        hworkflows.trans h.workflows, hversions.trans h.versions, ?_⟩
      · change ∀ e' rows', u.executions e' = some rows' → _
        rw [hupdate]
        refine h.workflow_update hrows fun r hr => ?_
        cases hr
        exact ⟨hext.workflow_id, hext.version⟩
      · change t'.Holds pk u.executions
        rw [hupdate]
        exact h.holds.update hself hother

/-- What `get_execution` says of the engine's rows. -/
def ExecutionRows.dto (pk : ℕ → String → ℕ) (e : ℕ) (rows : ExecutionRows) : ExecutionDTO :=
  Tables.execution_dto { rows.execution with id := e }
    ((rows.nodes.keys.map (rows.node_row pk e)).map Tables.node_dto)

/-- The answer of the API is what the engine has stored. -/
theorem Sys.StoredIn.get_execution (h : s.StoredIn senv t₀ pk t) (e owner : ℕ) :
    t.get_execution e owner = match s.executions e with
      | none => none
      | some rows => if (t₀.engine_env senv).owner rows.execution = some owner then
          some (rows.dto pk e) else none := by
  cases hrows : s.executions e with
  | none =>
      have hnone : t.find_execution owner e = none := by
        refine List.find?_eq_none.mpr fun row hrow hkey => ?_
        obtain ⟨rows, hstored⟩ := h.holds.of_execution hrow
        obtain ⟨hid, -⟩ := Bool.and_eq_true_iff.mp hkey
        rw [of_decide_eq_true hid, hrows] at hstored
        cases hstored
      unfold Tables.get_execution
      rw [hnone]
  | some rows =>
      have hfind := @Tables.Holds.find_execution t pk s.executions e h.holds rows hrows owner
      have hnodes : (t.node_executions.filter fun row => decide (row.execution_id = e))
          = rows.nodes.keys.map (rows.node_row pk e) :=
        congrArg ExecutionPart.nodes (h.holds.part_eq hrows)
      unfold Tables.get_execution Tables.get_node_executions
      rw [hfind]
      dsimp only
      by_cases howner : (t₀.engine_env senv).owner rows.execution = some owner
      · rw [if_pos ((h.owns_iff hrows).mpr howner), if_pos howner, hnodes]
        rfl
      · rw [if_neg fun howns => howner ((h.owns_iff hrows).mp howns), if_neg howner]

end Engine

/-- **The engine runs on the tables.** Whatever it does from the start, for callers whose
payloads and attempts the services accept, calls of the services and commits of workers
can do to tables that hold no execution yet: they reach tables that hold exactly what the
engine has stored, with the workflows as they were, and the API answers with it, to the
owner and to nobody else. The engine's run is simulated step by step. A step that stores
nothing leaves the tables where they are; every other step is one call or one commit on
them, with primary keys chosen so that they are new. The relation kept is that the tables,
read one execution at a time, hold the rows of the engine. -/
theorem engine_stored (senv : ServiceEnv) (pk : ℕ → String → ℕ) (hpk : Function.Injective2 pk)
    (t₀ : Tables) (h₀ : t₀.Reachable senv) (hempty : ∀ e, t₀.part e = {}) (s : Sys)
    (hrun : Reaches (Sys.step (t₀.engine_env senv)) (fun s a => s.fits a = true) Sys.init s) :
    ∃ t, Reaches (Tables.step senv) (fun _ _ => True) t₀ t ∧ t.Holds pk s.executions ∧
      t.workflows = t₀.workflows ∧ t.workflow_versions = t₀.workflow_versions ∧
      ∀ e owner, t.get_execution e owner = match s.executions e with
        | none => none
        | some rows => if (t₀.engine_env senv).owner rows.execution = some owner then
            some (rows.dto pk e) else none := by
  have hinit : Sys.init.StoredIn senv t₀ pk t₀ :=
    { typed := typed_init
      workflow := fun e rows hrows => by cases hrows
      inv := h₀.inv
      workflows := rfl
      versions := rfl
      holds := hempty }
  obtain ⟨t, hreach, hstored⟩ := hrun.simulate hinit fun _ _ _ _ hR hfits hs =>
    hR.step hpk hfits hs
  exact ⟨t, hreach, hstored.holds, hstored.workflows, hstored.versions, hstored.get_execution⟩

/-- Node rows can have ids of their own. -/
theorem exists_node_pk : ∃ pk : ℕ → String → ℕ, Function.Injective2 pk := by
  have hchar : Countable Char := (Function.LeftInverse.injective Char.ofNat_toNat).countable
  have hstring : Countable String :=
    Function.Injective.countable fun _ _ h => String.toList_injective h
  obtain ⟨f, hf⟩ := exists_injective_nat (ℕ × String)
  exact ⟨fun e n => f (e, n), fun e e' n n' h => Prod.mk.inj (hf h)⟩

/-- A workflow is started and its first node is claimed; another key sees nothing. -/
theorem engine_stored_chain :
    ∃ t : Tables, t.Reachable any_services ∧ (t.get_execution 0 1).isSome = true ∧
      t.get_execution 0 2 = none := by
  obtain ⟨pk, hpk⟩ := exists_node_pk
  have howner : (run (restrict (Sys.step (chain_tables.engine_env any_services)) Sys.fits) Sys.init
      [.start 0 0 (some []) 1, .publish 0, .finish 0, .claim 1 0]).bind (fun s =>
        (s.executions 0).map fun rows =>
          (chain_tables.engine_env any_services).owner rows.execution) = some (some 1) := by
    decide +kernel
  obtain ⟨s, hs, howner⟩ := Option.bind_eq_some_iff.mp howner
  obtain ⟨rows, hrows, howner⟩ := Option.map_eq_some_iff.mp howner
  have hempty : ∀ e, chain_tables.part e = {} := by
    intro e
    rfl
  obtain ⟨t, hreach, -, -, -, hget⟩ := engine_stored any_services pk hpk chain_tables
    chain_tables_reachable hempty s (reaches_of_run hs)
  refine ⟨t, chain_tables_reachable.trans hreach, ?_, ?_⟩
  · rw [hget, hrows]
    simp only [howner, if_true, Option.isSome_some]
  · rw [hget, hrows]
    simp only [howner]
    exact if_neg (by decide)

end EventFlow
