/-
Concurrent `create_workflow_version` requests, one statement at a time.

`Tables.create_workflow_version` takes the method as one step. Here a request
loads the workflow, reads `max(version_number)` and commits in three steps, and
the steps of any number of requests are interleaved. The number is computed from
a read without a lock, so it may be stale when it is inserted. The unique
constraint on `(workflow_id, version_number)` then decides: the highest number of
a workflow only grows, so a stale number is one that is taken, and a number that
is free is the next one. The invariant [`NumbersInv`] says so.

A request that is not disturbed does what the method does in one step
([`version_request_alone`]).
-/
import EventFlow.Versions
import EventFlow.Library.Selection

set_option autoImplicit false

namespace EventFlow

open Transition

/-! ## Requests -/

/-- The arguments of a `create_workflow_version` request, and the id that is
drawn for its row. -/
structure VersionRequest where
  workflow_id : ℕ
  definition : WorkflowDefinition
  owner_api_key_id : ℕ
  version_id : ℕ

/-- How far a request has come. -/
inductive RequestPhase where
  | received
  /-- The workflow is loaded and the definition is valid. -/
  | checked
  /-- `new_version_number` is computed. -/
  | numbered (new_version_number : ℕ)
  | created (version : WorkflowVersionRow)
  | failed (err : ServiceError)

/-- The tables and the requests. -/
structure VersionStore where
  tables : Tables
  phase : ℕ → RequestPhase

/-- The statements; `now` is the time of a commit. -/
inductive VersionAction where
  | create_workflow (name description : String) (definition : WorkflowDefinition)
      (owner_api_key_id workflow_id version_id now : ℕ)
  /-- `SELECT` of the workflow, and the validation. -/
  | check (i : ℕ)
  /-- `SELECT max(version_number)`. -/
  | read_max (i : ℕ)
  /-- `INSERT`, `UPDATE` of the workflow and `COMMIT`. -/
  | commit (i now : ℕ)
  /-- The request is given up, and its transaction rolled back. -/
  | abort (i : ℕ) (err : ServiceError)

/-- The request that takes an action. -/
def VersionAction.request : VersionAction → Option ℕ
  | .create_workflow .. => none
  | .check i | .read_max i | .commit i _ | .abort i _ => some i

/-- The version numbers of a workflow, in the order of their insertion. -/
def Tables.version_numbers (s : Tables) (workflow_id : ℕ) : List ℕ :=
  (s.workflow_versions.filter fun v => decide (v.workflow_id = workflow_id)).map
    WorkflowVersionRow.version_number

/-- The unique constraint, the primary key and the foreign key of a new row. -/
def Tables.accepts_version (s : Tables) (version : WorkflowVersionRow) : Bool :=
  decide (version.version_number ∉ s.version_numbers version.workflow_id) &&
    insertable (s.workflow_versions.map WorkflowVersionRow.id) [version.id] &&
    decide (version.workflow_id ∈ s.workflows.map WorkflowRow.id)

/-- The row that a request inserts. -/
def VersionRequest.row (env : ServiceEnv) (r : VersionRequest) (version_number now : ℕ) :
    WorkflowVersionRow where
  id := r.version_id
  workflow_id := r.workflow_id
  version_number := version_number
  definition := r.definition.model_dump
  checksum := env.checksum r.definition
  created_at := now

namespace VersionStore

/-- Request `i` goes to `phase`. -/
def goto (s : VersionStore) (i : ℕ) (phase : RequestPhase) : VersionStore :=
  { s with phase := Function.update s.phase i phase }

@[simp] theorem goto_tables (s : VersionStore) (i : ℕ) (phase : RequestPhase) :
    (s.goto i phase).tables = s.tables := rfl

theorem goto_phase (s : VersionStore) (i j : ℕ) (phase : RequestPhase) :
    (s.goto i phase).phase j = Function.update s.phase i phase j := rfl

/-- Request `i` stores its row, and the time of the workflow's last change. -/
def store (s : VersionStore) (i now : ℕ) (version : WorkflowVersionRow) : VersionStore where
  tables :=
    { s.tables with
      workflows := s.tables.workflows.map fun w =>
        if w.id = version.workflow_id then { w with updated_at := now } else w
      workflow_versions := s.tables.workflow_versions ++ [version] }
  phase := Function.update s.phase i (.created version)

theorem store_phase (s : VersionStore) (i j now : ℕ) (version : WorkflowVersionRow) :
    (s.store i now version).phase j = Function.update s.phase i (.created version) j := rfl

@[simp] theorem store_workflow_versions (s : VersionStore) (i now : ℕ)
    (version : WorkflowVersionRow) : (s.store i now version).tables.workflow_versions
      = s.tables.workflow_versions ++ [version] := rfl

@[simp] theorem store_workflow_ids (s : VersionStore) (i now : ℕ) (version : WorkflowVersionRow) :
    (s.store i now version).tables.workflows.map WorkflowRow.id
      = s.tables.workflows.map WorkflowRow.id := by
  unfold store
  dsimp only
  rw [List.map_map]
  apply List.map_congr_left
  intro w _
  rw [Function.comp_apply]
  split <;> rfl

/-- Nothing is stored, and every request is still to come. -/
def init : VersionStore where
  tables := {}
  phase := fun _ => .received

variable (env : ServiceEnv) (requests : ℕ → VersionRequest)

/-- The first lines of the method, up to the validation. -/
def check (s : VersionStore) (i : ℕ) : RequestPhase :=
  match s.tables.workflows.find? fun w =>
      decide (w.id = (requests i).workflow_id ∧
        w.owner_api_key_id = (requests i).owner_api_key_id) with
  | none => .failed (.app "Workflow not found" "not_found" 404)
  | some _ =>
    match validate_workflow (requests i).definition env.registry with
    | .error e => .failed (.py (.app e))
    | .ok _ => .checked

/-- The commit of a request with the number it has computed. -/
def insert (s : VersionStore) (i new_version_number now : ℕ) : VersionStore :=
  let version := (requests i).row env new_version_number now
  if s.tables.accepts_version version then s.store i now version
  else s.goto i (.failed .integrity_error)

def step (s : VersionStore) : VersionAction → Option VersionStore
  | .create_workflow name description definition owner workflow_id version_id now =>
    some { s with tables := (s.tables.create_workflow env name description definition owner
      workflow_id version_id now).2 }
  | .check i =>
    match s.phase i with
    | .received => some (s.goto i (s.check env requests i))
    | _ => none
  | .read_max i =>
    match s.phase i with
    | .checked =>
      let max_v := (s.tables.version_numbers (requests i).workflow_id).max?.getD 0
      some (s.goto i (.numbered (max_v + 1)))
    | _ => none
  | .commit i now =>
    match s.phase i with
    | .numbered n => some (s.insert env requests i n now)
    | _ => none
  | .abort i err =>
    match s.phase i with
    | .received | .checked | .numbered _ => some (s.goto i (.failed err))
    | .created _ | .failed _ => none

/-- A state that workflow creations and version requests lead to. -/
abbrev Reachable (s : VersionStore) : Prop :=
  Reaches (step env requests) (fun _ _ => True) init s

end VersionStore

/-! ## What a step can do -/

/-- A request has been answered. -/
def RequestPhase.answered : RequestPhase → Prop
  | .created _ | .failed _ => True
  | _ => False

/-- The ways a step goes. -/
inductive VersionStep (env : ServiceEnv) (requests : ℕ → VersionRequest) (s : VersionStore) :
    VersionAction → VersionStore → Prop
  | refused {a : VersionAction} (ha : a.request = none) : VersionStep env requests s a s
  | workflow_created {a : VersionAction} (workflow : WorkflowRow) (version : WorkflowVersionRow)
      (ha : a.request = none) (hid : workflow.id ∉ s.tables.workflows.map WorkflowRow.id)
      (hof : version.workflow_id = workflow.id) (hnumber : version.version_number = 1) :
      VersionStep env requests s a
        { s with tables :=
          { s.tables with workflows := s.tables.workflows ++ [workflow]
                          workflow_versions := s.tables.workflow_versions ++ [version] } }
  /-- A request fails. -/
  | failed {a : VersionAction} {i : ℕ} (err : ServiceError) (ha : a.request = some i)
      (hopen : ¬ (s.phase i).answered) : VersionStep env requests s a (s.goto i (.failed err))
  /-- The workflow is there. -/
  | checked {i : ℕ} (hphase : s.phase i = .received)
      (hmem : (requests i).workflow_id ∈ s.tables.workflows.map WorkflowRow.id) :
      VersionStep env requests s (.check i) (s.goto i .checked)
  | numbered {i : ℕ} (hphase : s.phase i = .checked) :
      VersionStep env requests s (.read_max i) (s.goto i (.numbered
        ((s.tables.version_numbers (requests i).workflow_id).max?.getD 0 + 1)))
  /-- The version is stored. -/
  | created {i n now : ℕ} (hphase : s.phase i = .numbered n)
      (hfree : n ∉ s.tables.version_numbers (requests i).workflow_id) :
      VersionStep env requests s (.commit i now)
        (s.store i now ((requests i).row env n now))

section Steps

variable {env : ServiceEnv} {requests : ℕ → VersionRequest} {s s' : VersionStore}

theorem create_workflow_cases (name description : String) (definition : WorkflowDefinition)
    (owner workflow_id version_id now : ℕ) :
    VersionStep env requests s
      (.create_workflow name description definition owner workflow_id version_id now)
      { s with tables := (s.tables.create_workflow env name description definition owner
        workflow_id version_id now).2 } := by
  unfold Tables.create_workflow
  split
  · exact .refused rfl
  · split
    · rename_i hfree
      obtain ⟨hid, -⟩ := Bool.and_eq_true_iff.mp hfree
      unfold insertable at hid
      rw [decide_eq_true_eq] at hid
      exact .workflow_created _ _ rfl (hid.2 workflow_id List.mem_cons_self) rfl rfl
    · exact .refused rfl

theorem check_cases {i : ℕ} (hphase : s.phase i = .received) :
    VersionStep env requests s (.check i) (s.goto i (s.check env requests i)) := by
  have hopen : ¬ (s.phase i).answered := by
    rw [hphase]
    exact id
  unfold VersionStore.check
  split
  · exact .failed _ rfl hopen
  · rename_i row hfind
    split
    · exact .failed _ rfl hopen
    · have hrow := List.find?_some hfind
      rw [decide_eq_true_eq] at hrow
      exact .checked hphase (List.mem_map.mpr ⟨row, List.mem_of_find?_eq_some hfind, hrow.1⟩)

theorem insert_cases {i n : ℕ} (now : ℕ) (hphase : s.phase i = .numbered n) :
    VersionStep env requests s (.commit i now) (s.insert env requests i n now) := by
  unfold VersionStore.insert
  dsimp only
  split
  · rename_i hok
    obtain ⟨hkeys, -⟩ := Bool.and_eq_true_iff.mp hok
    obtain ⟨hfree, -⟩ := Bool.and_eq_true_iff.mp hkeys
    exact .created hphase (of_decide_eq_true hfree)
  · refine .failed _ rfl ?_
    rw [hphase]
    exact id

/-- **What a step does.** A step moves the phase of one request, or stores a row, or both.
-/
theorem version_step_cases {a : VersionAction} (h : s.step env requests a = some s') :
    VersionStep env requests s a s' := by
  cases a with
  | create_workflow name description definition owner workflow_id version_id now =>
      cases h
      exact create_workflow_cases name description definition owner workflow_id version_id now
  | check i =>
      rw [VersionStore.step] at h
      split at h
      · rename_i hphase
        cases h
        exact check_cases hphase
      · cases h
  | read_max i =>
      rw [VersionStore.step] at h
      split at h
      · rename_i hphase
        cases h
        exact .numbered hphase
      · cases h
  | commit i now =>
      rw [VersionStore.step] at h
      split at h
      · rename_i n hphase
        cases h
        exact insert_cases now hphase
      · cases h
  | abort i err =>
      rw [VersionStore.step] at h
      cases hphase : s.phase i with
      | created version =>
          rw [hphase] at h
          cases h
      | failed err' =>
          rw [hphase] at h
          cases h
      | _ =>
          rw [hphase] at h
          cases h
          refine .failed err rfl ?_
          rw [hphase]
          exact id

end Steps

/-! ## Version numbers -/

section Numbers

variable {s : Tables} {v : WorkflowVersionRow} {w : ℕ}

/-- The numbers after an insertion. -/
theorem version_numbers_concat {workflows : List WorkflowRow} :
    Tables.version_numbers
        { s with workflows := workflows, workflow_versions := s.workflow_versions ++ [v] } w
      = if v.workflow_id = w then s.version_numbers w ++ [v.version_number]
        else s.version_numbers w := by
  unfold Tables.version_numbers
  dsimp only
  rw [List.filter_append]
  split
  · rename_i hof
    rw [List.filter_cons_of_pos (by simpa using hof), List.map_append]
    rfl
  · rename_i hof
    rw [List.filter_cons_of_neg (by simpa using hof), List.filter_nil, List.append_nil]

theorem VersionStore.version_numbers_store (s : VersionStore) (i now w : ℕ)
    (version : WorkflowVersionRow) :
    (s.store i now version).tables.version_numbers w
      = if version.workflow_id = w then s.tables.version_numbers w ++ [version.version_number]
        else s.tables.version_numbers w := version_numbers_concat

/-- The highest of the numbers `1..k`. -/
theorem max_range' {k : ℕ} (hk : 1 ≤ k) : (List.range' 1 k).max?.getD 0 = k := by
  have hmax : (List.range' 1 k).max? = some k := by
    rw [List.max?_eq_some_iff]
    constructor
    · rw [List.mem_range'_1]
      omega
    · intro n hn
      rw [List.mem_range'_1] at hn
      omega
  rw [hmax]
  rfl

end Numbers

/-- The numbers of every workflow are `1..k` for some `k`; a version is of a
workflow that is there; and a number that a request has computed is at most one
more than what there is. -/
structure NumbersInv (requests : ℕ → VersionRequest) (s : VersionStore) : Prop where
  dense : ∀ w ∈ s.tables.workflows.map WorkflowRow.id,
    ∃ k, 1 ≤ k ∧ s.tables.version_numbers w = List.range' 1 k
  owned : ∀ v ∈ s.tables.workflow_versions, v.workflow_id ∈ s.tables.workflows.map WorkflowRow.id
  checked : ∀ i, s.phase i = .checked →
    (requests i).workflow_id ∈ s.tables.workflows.map WorkflowRow.id
  numbered : ∀ i n, s.phase i = .numbered n →
    (requests i).workflow_id ∈ s.tables.workflows.map WorkflowRow.id ∧ 1 ≤ n ∧
      n ≤ (s.tables.version_numbers (requests i).workflow_id).length + 1

section Runs

variable {env : ServiceEnv} {requests : ℕ → VersionRequest} {s s' : VersionStore}

/-- A request that moves on while the tables stay. -/
theorem NumbersInv.goto (h : NumbersInv requests s) {i : ℕ} {phase : RequestPhase}
    (hchecked : phase = .checked →
      (requests i).workflow_id ∈ s.tables.workflows.map WorkflowRow.id)
    (hnumbered : ∀ n, phase = .numbered n →
      (requests i).workflow_id ∈ s.tables.workflows.map WorkflowRow.id ∧ 1 ≤ n ∧
        n ≤ (s.tables.version_numbers (requests i).workflow_id).length + 1) :
    NumbersInv requests (s.goto i phase) := by
  refine ⟨h.dense, h.owned, ?_, ?_⟩
  · intro j hj
    by_cases hij : j = i
    · subst hij
      rw [VersionStore.goto_phase, Function.update_self] at hj
      exact hchecked hj
    · rw [VersionStore.goto_phase, Function.update_of_ne hij] at hj
      exact h.checked j hj
  · intro j n hj
    by_cases hij : j = i
    · subst hij
      rw [VersionStore.goto_phase, Function.update_self] at hj
      exact hnumbered n hj
    · rw [VersionStore.goto_phase, Function.update_of_ne hij] at hj
      exact h.numbered j n hj

/-- **A free number is the next one.** The number that was read is one more than the
highest at that time, so it is at most one more than the highest now; if it is not taken
it must be exactly that. -/
theorem NumbersInv.next (h : NumbersInv requests s) {i n : ℕ} (hphase : s.phase i = .numbered n)
    (hfree : n ∉ s.tables.version_numbers (requests i).workflow_id) :
    ∃ k, 1 ≤ k ∧ s.tables.version_numbers (requests i).workflow_id = List.range' 1 k ∧
      n = k + 1 := by
  obtain ⟨hmem, hpos, hle⟩ := h.numbered i n hphase
  obtain ⟨k, hk, hnumbers⟩ := h.dense _ hmem
  rw [hnumbers, List.length_range'] at hle
  rw [hnumbers, List.mem_range'_1] at hfree
  exact ⟨k, hk, hnumbers, by omega⟩

/-- A new workflow has the one number `1`, and the others keep theirs. No request can have
read a number of a workflow that was not there. -/
theorem NumbersInv.add_workflow (h : NumbersInv requests s) {workflow : WorkflowRow}
    {version : WorkflowVersionRow} (hid : workflow.id ∉ s.tables.workflows.map WorkflowRow.id)
    (hof : version.workflow_id = workflow.id) (hnumber : version.version_number = 1) :
    NumbersInv requests { s with tables :=
      { s.tables with workflows := s.tables.workflows ++ [workflow]
                      workflow_versions := s.tables.workflow_versions ++ [version] } } := by
  have hold : ∀ w ∈ s.tables.workflows.map WorkflowRow.id, version.workflow_id ≠ w := by
    rintro w hw rfl
    exact hid (hof ▸ hw)
  have hnone : s.tables.version_numbers workflow.id = [] := by
    unfold Tables.version_numbers
    rw [List.map_eq_nil_iff, List.filter_eq_nil_iff]
    intro v hv hv'
    rw [decide_eq_true_eq] at hv'
    exact hid (hv' ▸ h.owned v hv)
  refine ⟨?_, ?_, ?_, ?_⟩
  · intro w hw
    rw [version_numbers_concat]
    rw [List.map_append] at hw
    rcases List.mem_append.mp hw with hw | hw
    · rw [if_neg (hold w hw)]
      exact h.dense w hw
    · rw [List.mem_singleton.mp hw, if_pos hof, hnumber, hnone]
      exact ⟨1, le_rfl, rfl⟩
  · intro v hv
    rw [List.map_append]
    rcases List.mem_append.mp hv with hv | hv
    · exact List.mem_append_left _ (h.owned v hv)
    · rw [List.mem_singleton.mp hv, hof]
      exact List.mem_append_right _ List.mem_cons_self
  · intro i hi
    rw [List.map_append]
    exact List.mem_append_left _ (h.checked i hi)
  · intro i n hi
    obtain ⟨hmem, hpos, hle⟩ := h.numbered i n hi
    rw [List.map_append, version_numbers_concat, if_neg (hold _ hmem)]
    exact ⟨List.mem_append_left _ hmem, hpos, hle⟩

/-- A phase before the end is not that of a request which has just stored its
row. -/
theorem phase_of_store {i j now : ℕ} {version : WorkflowVersionRow} {phase : RequestPhase}
    (hopen : ¬ phase.answered) (h : (s.store i now version).phase j = phase) :
    s.phase j = phase := by
  rw [VersionStore.store_phase] at h
  by_cases hij : j = i
  · subst hij
    rw [Function.update_self] at h
    exact absurd (h ▸ trivial) hopen
  · rwa [Function.update_of_ne hij] at h

/-- A row that is stored has the next number. Other requests may have read the same number
and not yet committed. The invariant asks of them only that the number is not too high,
and that remains true. -/
theorem NumbersInv.store_row (h : NumbersInv requests s) {i n now : ℕ}
    (hphase : s.phase i = .numbered n)
    (hfree : n ∉ s.tables.version_numbers (requests i).workflow_id) :
    NumbersInv requests (s.store i now ((requests i).row env n now)) := by
  obtain ⟨k, hk, hnumbers, rfl⟩ := h.next hphase hfree
  refine ⟨?_, ?_, ?_, ?_⟩
  · intro w hw
    rw [VersionStore.store_workflow_ids] at hw
    rw [VersionStore.version_numbers_store]
    split
    · rename_i hof
      rw [← hof]
      show ∃ k', 1 ≤ k' ∧
        s.tables.version_numbers (requests i).workflow_id ++ [k + 1] = List.range' 1 k'
      rw [hnumbers]
      exact ⟨k + 1, by omega, by rw [List.range'_1_concat, Nat.add_comm 1 k]⟩
    · exact h.dense w hw
  · intro v hv
    rw [VersionStore.store_workflow_ids]
    rw [VersionStore.store_workflow_versions] at hv
    rcases List.mem_append.mp hv with hv | hv
    · exact h.owned v hv
    · rw [List.mem_singleton.mp hv]
      exact (h.numbered i _ hphase).1
  · intro j hj
    rw [VersionStore.store_workflow_ids]
    exact h.checked j (phase_of_store id hj)
  · intro j n hj
    rw [VersionStore.store_workflow_ids]
    obtain ⟨hmem, hpos, hle⟩ := h.numbered j n (phase_of_store id hj)
    refine ⟨hmem, hpos, ?_⟩
    -- the numbers of a workflow only grow
    rw [VersionStore.version_numbers_store]
    split
    · rw [List.length_append]
      omega
    · exact hle

/-- **A step keeps the numbers dense.** Only two kinds of step store a row, and both are
looked at above; the others change the phase of a request. -/
theorem VersionStep.numbersInv {a : VersionAction} (hstep : VersionStep env requests s a s')
    (h : NumbersInv requests s) : NumbersInv requests s' := by
  cases hstep with
  | refused ha => exact h
  | workflow_created workflow version ha hid hof hnumber => exact h.add_workflow hid hof hnumber
  | failed err ha hopen =>
      apply h.goto
      · intro heq
        cases heq
      · intro n heq
        cases heq
  | checked hphase hmem =>
      apply h.goto
      · intro _
        exact hmem
      · intro n heq
        cases heq
  | @numbered i hphase =>
      have hmem := h.checked i hphase
      apply h.goto
      · intro heq
        cases heq
      · intro n heq
        cases heq
        obtain ⟨k, hk, hnumbers⟩ := h.dense _ hmem
        rw [hnumbers, max_range' hk, List.length_range']
        exact ⟨hmem, by omega, le_rfl⟩
  | created hphase hfree => exact h.store_row hphase hfree

/-- **Every state that is reached.** By induction on the run, from an empty store. -/
theorem VersionStore.Reachable.numbersInv (h : s.Reachable env requests) :
    NumbersInv requests s := by
  apply Reaches.invariant (NumbersInv requests) h
  · refine ⟨?_, ?_, ?_, ?_⟩
    · intro w hw
      cases hw
    · intro v hv
      cases hv
    · intro i hi
      cases hi
    · intro i n hi
      cases hi
  · intro u a v hu _ hstep
    exact (version_step_cases hstep).numbersInv hu

/-- What has happened stays: versions are only added, and a request that
has been answered stays as it was answered. -/
structure VersionStore.Later (s u : VersionStore) : Prop where
  versions : s.tables.workflow_versions <+: u.tables.workflow_versions
  answered : ∀ i, (s.phase i).answered → u.phase i = s.phase i

theorem VersionStore.Later.refl (s : VersionStore) : s.Later s :=
  ⟨List.prefix_rfl, fun _ _ => rfl⟩

theorem VersionStore.Later.trans {u v : VersionStore} (h₁ : s.Later u) (h₂ : u.Later v) :
    s.Later v := by
  refine ⟨h₁.versions.trans h₂.versions, ?_⟩
  intro i hanswered
  have hsame := h₁.answered i hanswered
  rw [h₂.answered i (hsame ▸ hanswered), hsame]

/-- A request that has not been answered moves on, and the others stay. -/
theorem later_of_phase {i : ℕ} {phase : RequestPhase}
    (hversions : s.tables.workflow_versions <+: s'.tables.workflow_versions)
    (hphase : s'.phase = Function.update s.phase i phase) (hopen : ¬ (s.phase i).answered) :
    s.Later s' := by
  refine ⟨hversions, ?_⟩
  intro j hanswered
  have hji : j ≠ i := by
    rintro rfl
    exact hopen hanswered
  rw [hphase, Function.update_of_ne hji]

theorem VersionStep.later {a : VersionAction} (h : VersionStep env requests s a s') :
    s.Later s' := by
  cases h with
  | refused ha => exact .refl s
  | workflow_created workflow version ha hid hof hnumber =>
      exact ⟨List.prefix_append _ _, fun _ _ => rfl⟩
  | failed err ha hopen => exact later_of_phase List.prefix_rfl rfl hopen
  | checked hphase hmem =>
      refine later_of_phase List.prefix_rfl rfl ?_
      rw [hphase]
      exact id
  | numbered hphase =>
      refine later_of_phase List.prefix_rfl rfl ?_
      rw [hphase]
      exact id
  | created hphase hfree =>
      refine later_of_phase (List.prefix_append _ _) rfl ?_
      rw [hphase]
      exact id

theorem later_of_reaches
    (h : Reaches (VersionStore.step env requests) (fun _ _ => True) s s') : s.Later s' := by
  apply h.invariant (fun u => s.Later u) (.refl s)
  intro u a v hu _ hstep
  exact hu.trans (version_step_cases hstep).later

/-- A step of a request that changes the tables is the one that creates the
version. -/
theorem VersionStep.unchanged_or_created {a : VersionAction} {i : ℕ}
    (h : VersionStep env requests s a s') (ha : a.request = some i) :
    s'.tables = s.tables ∨ ∃ version, s'.phase i = .created version := by
  cases h with
  | refused _ => exact Or.inl rfl
  | workflow_created _ _ hnone _ _ _ =>
      rw [hnone] at ha
      cases ha
  | failed _ _ _ => exact Or.inl rfl
  | checked _ _ => exact Or.inl rfl
  | numbered _ => exact Or.inl rfl
  | created hphase hfree =>
      cases ha
      right
      exact ⟨_, by rw [VersionStore.store_phase, Function.update_self]⟩

/-- A version is known by its workflow and its number. -/
theorem NumbersInv.version_unique (h : NumbersInv requests s) {v v' : WorkflowVersionRow}
    (hv : v ∈ s.tables.workflow_versions) (hv' : v' ∈ s.tables.workflow_versions)
    (hof : v'.workflow_id = v.workflow_id) (hnumber : v'.version_number = v.version_number) :
    v' = v := by
  obtain ⟨k, -, hnumbers⟩ := h.dense _ (h.owned v hv)
  have hnodup : (s.tables.version_numbers v.workflow_id).Nodup := by
    rw [hnumbers]
    exact List.nodup_range'
  exact Selection.eq_of_key hnodup (List.mem_filter.mpr ⟨hv', decide_eq_true hof⟩)
    (List.mem_filter.mpr ⟨hv, decide_eq_true rfl⟩) hnumber

end Runs

/-- **Version numbers are dense and unique.** However the requests are interleaved, the
numbers of a workflow are `1..k`; a request that fails has left the tables as they were at
each of its steps; and the definition and the checksum of a version never change. The
first part is the invariant. The second needs that a request fails in a step that stores
nothing, and that a request which has stored its row does not fail any more. The third
holds since rows are only ever added and the numbers of a workflow are distinct. -/
theorem version_numbers_dense (env : ServiceEnv) (requests : ℕ → VersionRequest)
    (s : VersionStore) (hreach : s.Reachable env requests) :
    (∀ w ∈ s.tables.workflows,
      ∃ k, 1 ≤ k ∧ s.tables.version_numbers w.id = List.range' 1 k) ∧
    (∀ (a : VersionAction) (i : ℕ) (s' u : VersionStore) (err : ServiceError),
      s.step env requests a = some s' → a.request = some i →
      Reaches (VersionStore.step env requests) (fun _ _ => True) s' u →
      u.phase i = .failed err → s'.tables = s.tables) ∧
    ∀ u : VersionStore, Reaches (VersionStore.step env requests) (fun _ _ => True) s u →
      ∀ v ∈ s.tables.workflow_versions, v ∈ u.tables.workflow_versions ∧
        ∀ v' ∈ u.tables.workflow_versions, v'.workflow_id = v.workflow_id →
          v'.version_number = v.version_number →
          v'.definition = v.definition ∧ v'.checksum = v.checksum := by
  refine ⟨?_, ?_, ?_⟩
  · intro w hw
    exact hreach.numbersInv.dense w.id (List.mem_map_of_mem hw)
  · intro a i s' u err hstep ha hlater hfailed
    rcases (version_step_cases hstep).unchanged_or_created ha with hsame | ⟨version, hcreated⟩
    · exact hsame
    · -- a request that has created its version does not fail any more
      have hphase := (later_of_reaches hlater).answered i (hcreated ▸ trivial)
      rw [hfailed, hcreated] at hphase
      cases hphase
  · intro u hlater v hv
    have hmem := (later_of_reaches hlater).versions.subset hv
    refine ⟨hmem, ?_⟩
    intro v' hv' hof hnumber
    have hinv : NumbersInv requests u :=
      VersionStore.Reachable.numbersInv (hreach.trans hlater)
    rw [hinv.version_unique hmem hv' hof hnumber]
    exact ⟨rfl, rfl⟩

/-- Two requests for the workflow of `chain_tables`. -/
def two_requests (i : ℕ) : VersionRequest where
  workflow_id := 0
  definition := chain_definition
  owner_api_key_id := 1
  version_id := i + 1

/-- Both read the number before either of them commits. -/
def overlapping : List VersionAction :=
  [.create_workflow "two_jobs" "" chain_definition 1 0 0 0, .check 0, .check 1, .read_max 0,
    .read_max 1, .commit 1 5, .commit 0 6]

/-- Whether a request has failed. -/
def RequestPhase.has_failed : RequestPhase → Bool
  | .failed _ => true
  | _ => false

theorem version_numbers_dense_overlapping :
    ∃ s : VersionStore, s.Reachable any_services two_requests ∧
      s.tables.version_numbers 0 = [1, 2] ∧ (s.phase 0).has_failed = true ∧
      ∀ w ∈ s.tables.workflows,
        ∃ k, 1 ≤ k ∧ s.tables.version_numbers w.id = List.range' 1 k := by
  have hrun : (run (restrict (VersionStore.step any_services two_requests) fun _ _ => true)
      VersionStore.init overlapping).map
        (fun s => (s.tables.version_numbers 0, (s.phase 0).has_failed))
      = some ([1, 2], true) := by decide +kernel
  obtain ⟨s, hs, hend⟩ := Option.map_eq_some_iff.mp hrun
  rw [Prod.mk.injEq] at hend
  have hreach : s.Reachable any_services two_requests :=
    (reaches_of_run hs).mono fun _ _ _ => trivial
  exact ⟨s, hreach, hend.1, hend.2,
    (version_numbers_dense any_services two_requests s hreach).1⟩

/-! ## One request at a time -/

section Alone

variable {env : ServiceEnv} {requests : ℕ → VersionRequest} {s : VersionStore} {i : ℕ}

/-- A request that fails its checks is refused by the method. -/
theorem version_request_refused {err : ServiceError}
    (hcheck : s.check env requests i = .failed err) (now : ℕ) :
    s.tables.create_workflow_version env (requests i).workflow_id (requests i).definition
      (requests i).owner_api_key_id (requests i).version_id now = (.error err, s.tables) := by
  unfold VersionStore.check at hcheck
  split at hcheck
  · rename_i hfind
    cases hcheck
    unfold Tables.create_workflow_version
    rw [hfind]
  · rename_i row hfind
    split at hcheck
    · rename_i e hval
      cases hcheck
      unfold Tables.create_workflow_version
      rw [hfind, hval]
    · cases hcheck

/-- What a request that passes its checks has found. -/
theorem check_found (hcheck : s.check env requests i = .checked) :
    (∃ row, (s.tables.workflows.find? fun w => decide (w.id = (requests i).workflow_id ∧
      w.owner_api_key_id = (requests i).owner_api_key_id)) = some row) ∧
    ∃ plan, validate_workflow (requests i).definition env.registry = .ok plan := by
  unfold VersionStore.check at hcheck
  split at hcheck
  · cases hcheck
  · rename_i row hfind
    split at hcheck
    · cases hcheck
    · rename_i plan hval
      exact ⟨⟨row, hfind⟩, plan, hval⟩

/-- The next number is free, so the key of the row decides. -/
theorem NumbersInv.accepts_next (h : NumbersInv requests s)
    (hmem : (requests i).workflow_id ∈ s.tables.workflows.map WorkflowRow.id) (now : ℕ) :
    s.tables.accepts_version ((requests i).row env
        ((s.tables.version_numbers (requests i).workflow_id).max?.getD 0 + 1) now)
      = insertable (s.tables.workflow_versions.map WorkflowVersionRow.id)
          [(requests i).version_id] := by
  obtain ⟨k, hk, hnumbers⟩ := h.dense _ hmem
  have hfree : k + 1 ∉ List.range' 1 k := by
    rw [List.mem_range'_1]
    omega
  unfold Tables.accepts_version VersionRequest.row
  dsimp only
  rw [hnumbers, max_range' hk, decide_eq_true hfree, decide_eq_true hmem, Bool.true_and,
    Bool.and_true]

/-- **A request that is not disturbed** is the method. Its three steps read the same
tables, because no other request comes between them. -/
theorem version_request_alone (h : NumbersInv requests s) (hphase : s.phase i = .received)
    (hcheck : s.check env requests i = .checked) (now : ℕ) :
    ∃ s', run (VersionStore.step env requests) s [.check i, .read_max i, .commit i now] = some s' ∧
      s'.tables = (s.tables.create_workflow_version env (requests i).workflow_id
        (requests i).definition (requests i).owner_api_key_id (requests i).version_id now).2 := by
  obtain ⟨⟨row, hfind⟩, plan, hval⟩ := check_found hcheck
  have hrow := List.find?_some hfind
  rw [decide_eq_true_eq] at hrow
  have hmem : (requests i).workflow_id ∈ s.tables.workflows.map WorkflowRow.id :=
    List.mem_map.mpr ⟨row, List.mem_of_find?_eq_some hfind, hrow.1⟩
  let n := (s.tables.version_numbers (requests i).workflow_id).max?.getD 0 + 1
  let s₂ := (s.goto i .checked).goto i (.numbered n)
  have hcheck_step : s.step env requests (.check i) = some (s.goto i .checked) := by
    rw [VersionStore.step, hphase, hcheck]
  have hread_step : (s.goto i .checked).step env requests (.read_max i) = some s₂ := by
    rw [VersionStore.step, VersionStore.goto_phase, Function.update_self]
    rfl
  have hcommit_step :
      s₂.step env requests (.commit i now) = some (s₂.insert env requests i n now) := by
    rw [VersionStore.step, VersionStore.goto_phase, Function.update_self]
  refine ⟨s₂.insert env requests i n now, ?_, ?_⟩
  · rw [run_cons, hcheck_step, Option.bind_some, run_cons, hread_step, Option.bind_some, run_cons,
      hcommit_step, Option.bind_some, run_nil]
  · have haccepts : s₂.tables.accepts_version ((requests i).row env n now)
        = insertable (s.tables.workflow_versions.map WorkflowVersionRow.id)
            [(requests i).version_id] := h.accepts_next hmem now
    unfold VersionStore.insert Tables.create_workflow_version
    dsimp only
    rw [haccepts, hfind, hval]
    dsimp only
    split <;> rfl

end Alone

end EventFlow
