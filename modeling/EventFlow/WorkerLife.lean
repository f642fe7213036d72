/-
Worker processes and their rows: `worker/__main__.py`, `worker/background.py`,
`worker/heartbeat.py` and the loop of `run_worker`, side by side over one table
`workers`.

A process registers, and then three coroutines of it run: the consumer loop, which
sets the status of the heartbeat controller, the heartbeat loop, which reads the
controller and writes the row in two steps, and the recovery loop, which touches
neither. When the consumer loop is left, the controller is set to STOPPING and the
stop event is set at once, the heartbeat loop comes to its end, and the row is
marked OFFLINE; a process that is killed leaves its row as it is.

[`worker_rows_follow`] says what a row tells about its process.

Names are drawn with `uuid4`, as they are when `settings.worker_name` is not set,
so that each process has a row of its own. Times are in microseconds.
-/
import EventFlow.WorkerRegistration
import EventFlow.Library.Transition

set_option autoImplicit false

namespace EventFlow

open Transition

/-! ## The controller and the row -/

/-- `HeartbeatController`. -/
structure HeartbeatController where
  worker_id : ℕ
  status : WorkerStatus := .STARTING
  current_job_id : Option String := none

/-- `set_status`: BUSY without a job keeps the one before. -/
def HeartbeatController.set_status (controller : HeartbeatController) (status : WorkerStatus)
    (current_job_id : Option String) : HeartbeatController :=
  { controller with
    status := status
    current_job_id :=
      match current_job_id with
      | some job => some job
      | none => if status ≠ .BUSY then none else controller.current_job_id }

/-- `WorkerService.update_heartbeat`. -/
def update_heartbeat (workers : List WorkerRow) (worker_id : ℕ) (status : WorkerStatus)
    (current_job_id : Option String) (now : ℕ) : List WorkerRow :=
  workers.map fun worker =>
    if worker.id = worker_id then
      { worker with status, last_heartbeat_at := some now, current_job_id }
    else worker

/-- `WorkerService.mark_offline`. -/
def mark_offline (workers : List WorkerRow) (worker_id now : ℕ) : List WorkerRow :=
  update_heartbeat workers worker_id .OFFLINE none now

/-! ## One process -/

/-- Where `run_worker`, and the coroutine around it, stands. -/
inductive WorkerStage where
  | polling
  /-- In `asyncio.gather`: the jobs that have not begun, and those that run. -/
  | batch (todo running : List String)
  /-- In `finally`. -/
  | stopping
  /-- At its end, with `mark_offline` committed or not. -/
  | stopped (offline : Bool)
  | killed
deriving DecidableEq

/-- Where `run_heartbeat_loop` stands. -/
inductive HeartbeatTask where
  /-- It waits for the stop event or the end of the interval. -/
  | waiting
  /-- It has read the controller and is about to commit. -/
  | writing (status : WorkerStatus) (current_job_id : Option String)
  | done
deriving DecidableEq

/-- A process that has registered. The last three fields are its history: the jobs
it has begun, its last commit to its row, and its end. -/
structure WorkerProcess where
  controller : HeartbeatController
  /-- It is a task of the API process. -/
  background : Bool
  stage : WorkerStage := .polling
  heartbeat : HeartbeatTask := .waiting
  stop_event : Bool := false
  jobs : List String := []
  beat_at : ℕ
  ended_at : Option ℕ := none

inductive WorkerAct where
  /-- `XREADGROUP` returns messages. -/
  | take (jobs : List String)
  | start_job
  /-- A payload that is not deserialized. -/
  | reject
  /-- A job is acknowledged, or its coroutine raises. -/
  | finish (job : String)
  | batch_done
  /-- `run_worker` raises or is cancelled. -/
  | leave
  | beat
  /-- The commit of the heartbeat, or its failure. -/
  | commit_beat (ok : Bool)
  | mark_offline (ok : Bool)
  | kill

/-- One step of a process, and what it writes to its row. -/
def WorkerProcess.act (p : WorkerProcess) (now : ℕ) :
    WorkerAct → Option (WorkerProcess × Option (WorkerStatus × Option String))
  | .take jobs =>
    match p.stage with
    | .polling => if jobs = [] then none else some ({ p with stage := .batch jobs [] }, none)
    | _ => none
  | .start_job =>
    match p.stage with
    | .batch (job :: todo) running =>
      some ({ p with
        stage := .batch todo (job :: running)
        controller := p.controller.set_status .BUSY (some job)
        jobs := p.jobs ++ [job] }, none)
    | _ => none
  | .reject =>
    match p.stage with
    | .batch (_ :: todo) running => some ({ p with stage := .batch todo running }, none)
    | _ => none
  | .finish job =>
    match p.stage with
    | .batch todo running =>
      if job ∈ running then some ({ p with stage := .batch todo (running.erase job) }, none)
      else none
    | _ => none
  | .batch_done =>
    match p.stage with
    | .batch [] [] =>
      some ({ p with stage := .polling, controller := p.controller.set_status .IDLE none }, none)
    | _ => none
  | .leave =>
    match p.stage with
    | .polling | .batch _ _ =>
      -- nothing is awaited between the two
      some ({ p with
        stage := .stopping
        controller := p.controller.set_status .STOPPING none
        stop_event := true }, none)
    | _ => none
  | .beat =>
    match p.heartbeat with
    | .waiting =>
      if p.stop_event then some ({ p with heartbeat := .done }, none)
      else some ({ p with
        heartbeat := .writing p.controller.status p.controller.current_job_id }, none)
    | _ => none
  | .commit_beat ok =>
    match p.heartbeat with
    | .writing status job =>
      if ok then some ({ p with heartbeat := .waiting, beat_at := now }, some (status, job))
      else some ({ p with heartbeat := .waiting }, none)
    | _ => none
  | .mark_offline ok =>
    match p.stage, p.heartbeat with
    | .stopping, .done =>
      if ok then
        some ({ p with stage := .stopped true, beat_at := now, ended_at := some now },
          some (.OFFLINE, none))
      else some ({ p with stage := .stopped false, ended_at := some now }, none)
    | _, _ => none
  | .kill =>
    match p.stage with
    | .stopped _ | .killed => none
    | _ => some ({ p with stage := .killed, heartbeat := .done, ended_at := some now }, none)

/-! ## All processes -/

def MAX_SPAWNED_WORKERS : ℕ := 5

/-- The table, the processes in the order of their registration, the tasks that
have not registered yet, and the clock. -/
structure Fleet where
  workers : List WorkerRow := []
  processes : List WorkerProcess := []
  /-- The arguments of `register_worker`, and whether it is a background task. -/
  starting : List (Registration × Bool) := []
  now : ℕ := 0

/-- A background task that is not done. -/
def WorkerProcess.active_background (p : WorkerProcess) : Bool :=
  p.background && p.ended_at.isNone

/-- `get_active_worker_count`. -/
def Fleet.get_active_worker_count (s : Fleet) : ℕ :=
  s.starting.countP Prod.snd + s.processes.countP WorkerProcess.active_background

/-- `spawn_background_worker_task`. -/
def spawn_background_worker_task (s : Fleet) (r : Registration) : Except AppError Fleet :=
  if MAX_SPAWNED_WORKERS ≤ s.get_active_worker_count then
    .error {
      message := s!"Maximum background worker limit reached (max {MAX_SPAWNED_WORKERS})"
      code := "worker_limit_reached"
      status_code := 429 }
  else .ok { s with starting := s.starting ++ [(r, true)] }

/-- What a process writes to its row, if anything. -/
def write_row (workers : List WorkerRow) (worker_id now : ℕ) :
    Option (WorkerStatus × Option String) → List WorkerRow
  | none => workers
  | some (status, job) => update_heartbeat workers worker_id status job now

inductive FleetAction where
  /-- `python -m app.worker`. -/
  | start (worker_name hostname : String)
  /-- `POST /workers/spawn`. -/
  | spawn (worker_name hostname : String) (owner_api_key_id : ℕ)
  /-- A task registers. -/
  | register (i : ℕ)
  /-- A task is gone before it has registered. -/
  | abort (i : ℕ)
  | act (k : ℕ) (a : WorkerAct)
  | wait (time : ℕ)

def Fleet.step (s : Fleet) : FleetAction → Option Fleet
  | .start worker_name hostname =>
    some { s with starting := s.starting ++ [({ worker_name, hostname }, false)] }
  | .spawn worker_name hostname owner_api_key_id =>
    match spawn_background_worker_task s
        { worker_name, hostname, owner_api_key_id := some owner_api_key_id } with
    | .ok s' => some s'
    | .error _ => some s
  | .register i =>
    match s.starting[i]? with
    | none => none
    | some (r, background) =>
      match register_worker s.workers { r with now := s.now } with
      | (.ok worker, workers) =>
        some { s with
          workers := workers
          starting := s.starting.eraseIdx i
          processes := s.processes ++ [{
            controller := HeartbeatController.set_status { worker_id := worker.id } .IDLE none
            background := background
            beat_at := s.now }] }
      | (.error _, workers) =>
        some { s with workers := workers, starting := s.starting.eraseIdx i }
  | .abort i => if i < s.starting.length then
      some { s with starting := s.starting.eraseIdx i } else none
  | .act k a =>
    match s.processes[k]? with
    | none => none
    | some p =>
      (p.act s.now a).map fun result =>
        { s with
          processes := s.processes.set k result.1
          workers := write_row s.workers p.controller.worker_id s.now result.2 }
  | .wait time => some { s with now := s.now + time }

/-- A name that is registered is a new one. -/
def Fleet.draws_fresh (s : Fleet) : FleetAction → Bool
  | .register i =>
    s.starting[i]?.all fun task =>
      decide (task.1.worker_name ∉ s.workers.map WorkerRow.worker_name)
  | _ => true

/-- The runs. -/
abbrev Fleet.Run : Fleet → Fleet → Prop :=
  Reaches Fleet.step fun s a => s.draws_fresh a = true

/-! ## The steps of a process -/

/-- In the consumer loop. -/
def WorkerStage.live : WorkerStage → Bool
  | .polling | .batch _ _ => true
  | _ => false

/-- At the end. -/
def WorkerStage.halted : WorkerStage → Bool
  | .stopped _ | .killed => true
  | _ => false

/-- What a step of a process does. -/
inductive WorkerProcess.Moves (p : WorkerProcess) (now : ℕ) :
    WorkerProcess → Option (WorkerStatus × Option String) → Prop
  | staged (stage : WorkerStage) (hp : p.stage.live = true) (hstage : stage.live = true) :
      Moves p now { p with stage } none
  | started (job : String) (todo running : List String) (hp : p.stage.live = true) :
      Moves p now { p with
        stage := .batch todo running
        controller := p.controller.set_status .BUSY (some job)
        jobs := p.jobs ++ [job] } none
  | idle (hp : p.stage.live = true) :
      Moves p now { p with
        stage := .polling
        controller := p.controller.set_status .IDLE none } none
  | left (hp : p.stage.live = true) :
      Moves p now { p with
        stage := .stopping
        controller := p.controller.set_status .STOPPING none
        stop_event := true } none
  | beat_done (hp : p.heartbeat = .waiting) : Moves p now { p with heartbeat := .done } none
  | beat_read (hp : p.heartbeat = .waiting) (hstop : p.stop_event = false) :
      Moves p now { p with
        heartbeat := .writing p.controller.status p.controller.current_job_id } none
  | beat_written (status : WorkerStatus) (job : Option String)
      (hp : p.heartbeat = .writing status job) :
      Moves p now { p with heartbeat := .waiting, beat_at := now } (some (status, job))
  | beat_lost (status : WorkerStatus) (job : Option String)
      (hp : p.heartbeat = .writing status job) :
      Moves p now { p with heartbeat := .waiting } none
  | marked (hp : p.stage = .stopping) (hdone : p.heartbeat = .done) :
      Moves p now { p with stage := .stopped true, beat_at := now, ended_at := some now }
        (some (.OFFLINE, none))
  | unmarked (hp : p.stage = .stopping) (hdone : p.heartbeat = .done) :
      Moves p now { p with stage := .stopped false, ended_at := some now } none
  | killed (hp : p.stage.halted = false) :
      Moves p now { p with stage := .killed, heartbeat := .done, ended_at := some now } none

section Process

variable {p p' : WorkerProcess} {now : ℕ} {a : WorkerAct} {row : WorkerRow}
  {write : Option (WorkerStatus × Option String)}

/-- The inversion of a step of a process: each action that is possible is one of the kinds
of [`Moves`], with the write to the row that goes with it. After this no proof looks into
`act` again. -/
theorem WorkerProcess.moves_of_act (h : p.act now a = some (p', write)) :
    p.Moves now p' write := by
  cases a with
  | take jobs =>
      simp only [act] at h
      split at h
      · rename_i hstage
        split at h
        · cases h
        · cases h
          exact .staged _ (by rw [hstage]; rfl) rfl
      · cases h
  | start_job =>
      simp only [act] at h
      split at h
      · rename_i hstage
        cases h
        exact .started _ _ _ (by rw [hstage]; rfl)
      · cases h
  | reject =>
      simp only [act] at h
      split at h
      · rename_i hstage
        cases h
        exact .staged _ (by rw [hstage]; rfl) rfl
      · cases h
  | finish job =>
      simp only [act] at h
      split at h
      · rename_i hstage
        split at h
        · cases h
          exact .staged _ (by rw [hstage]; rfl) rfl
        · cases h
      · cases h
  | batch_done =>
      simp only [act] at h
      split at h
      · rename_i hstage
        cases h
        exact .idle (by rw [hstage]; rfl)
      · cases h
  | leave =>
      simp only [act] at h
      split at h
      · rename_i hstage
        cases h
        exact .left (by rw [hstage]; rfl)
      · rename_i hstage
        cases h
        exact .left (by rw [hstage]; rfl)
      · cases h
  | beat =>
      simp only [act] at h
      split at h
      · rename_i hwaiting
        split at h
        · cases h
          exact .beat_done hwaiting
        · rename_i hstop
          cases h
          exact .beat_read hwaiting (by simpa using hstop)
      · cases h
  | commit_beat ok =>
      simp only [act] at h
      split at h
      · rename_i hwriting
        split at h <;> cases h
        · exact .beat_written _ _ hwriting
        · exact .beat_lost _ _ hwriting
      · cases h
  | mark_offline ok =>
      simp only [act] at h
      split at h
      · rename_i hstage hdone
        split at h <;> cases h
        · exact .marked hstage hdone
        · exact .unmarked hstage hdone
      · cases h
  | kill =>
      simp only [act] at h
      split at h
      · cases h
      · cases h
      · rename_i hstopped hkilled
        cases h
        refine .killed ?_
        cases hstage : p.stage with
        | stopped offline => exact absurd hstage (hstopped offline)
        | killed => exact absurd hstage hkilled
        | _ => rfl

/-- A status and a job that fit: there is a job exactly if the worker is BUSY, and
it is one that the process has begun. -/
structure Told (jobs : List String) (status : WorkerStatus) (job : Option String) : Prop where
  busy : job.isSome = true ↔ status = .BUSY
  begun : ∀ j ∈ job, j ∈ jobs

theorem Told.mono {jobs jobs' : List String} {status : WorkerStatus} {job : Option String}
    (h : Told jobs status job) (hsub : jobs ⊆ jobs') : Told jobs' status job :=
  ⟨h.busy, fun j hj => hsub (h.begun j hj)⟩

/-- Without a job. -/
theorem Told.idle {jobs : List String} {status : WorkerStatus} (h : status ≠ .BUSY) :
    Told jobs status none where
  busy := ⟨fun hsome => absurd hsome Bool.false_ne_true, fun hbusy => absurd hbusy h⟩
  begun := fun _ hj => absurd hj (Option.not_mem_none _)

/-- What holds of a process at a time. -/
structure WorkerProcess.Ok (p : WorkerProcess) (now : ℕ) : Prop where
  told : Told p.jobs p.controller.status p.controller.current_job_id
  online : p.controller.status ≠ .OFFLINE
  stopping : p.controller.status = .STOPPING → p.stop_event = true
  writing : ∀ status job, p.heartbeat = .writing status job →
    Told p.jobs status job ∧ status ≠ .STOPPING ∧ status ≠ .OFFLINE
  ended : p.ended_at.isSome = p.stage.halted
  halted : p.stage.halted = true → p.heartbeat = .done
  past : p.beat_at ≤ now
  ended_after : ∀ t ∈ p.ended_at, p.beat_at ≤ t

/-- What the row of a process says. -/
structure WorkerProcess.Shown (p : WorkerProcess) (row : WorkerRow) : Prop where
  told : Told p.jobs row.status row.current_job_id
  not_stopping : row.status ≠ .STOPPING
  offline_iff : row.status = .OFFLINE ↔ p.stage = .stopped true
  beat : row.last_heartbeat_at = some p.beat_at

/-- A live stage is not the end. -/
theorem WorkerStage.not_halted {stage : WorkerStage} (h : stage.live = true) :
    stage.halted = false := by
  cases stage <;> first | rfl | cases h

theorem WorkerStage.live_stopping {stage : WorkerStage} (h : stage = .stopping) :
    stage.halted = false := by
  rw [h]
  rfl

/-- A new status other than BUSY. -/
theorem HeartbeatController.told_set_status (controller : HeartbeatController)
    (jobs : List String) {status : WorkerStatus} (h : status ≠ .BUSY) :
    Told jobs (controller.set_status status none).status
      (controller.set_status status none).current_job_id := by
  have hnone : (controller.set_status status none).current_job_id = none := if_pos h
  rw [hnone]
  exact .idle h

/-- A process whose heartbeat loop runs has not ended. -/
theorem WorkerProcess.Ok.not_halted (h : p.Ok now) (hp : p.heartbeat ≠ .done) :
    p.stage.halted = false := by
  by_contra hhalted
  exact hp (h.halted (by rwa [Bool.not_eq_false] at hhalted))

/-- **One step of a process.** The invariant ties the heartbeat controller to the stage of
the consumer loop. A kind of step changes one of the two in a way that the other allows;
what it does not touch is taken over from before (`h with`). -/
theorem WorkerProcess.Ok.moves (h : p.Ok now) (hm : p.Moves now p' write) : p'.Ok now := by
  cases hm with
  | staged stage hp hstage =>
      have hended : p.ended_at.isSome = stage.halted := by
        rw [h.ended, WorkerStage.not_halted hp, WorkerStage.not_halted hstage]
      exact { h with
        ended := hended
        halted := fun hhalted =>
          absurd (hhalted.symm.trans (WorkerStage.not_halted hstage)) (by decide) }
  -- the job is added to those begun before the controller names it
  | started job todo running hp =>
      have hsub : p.jobs ⊆ p.jobs ++ [job] := List.subset_append_left _ _
      exact {
        told := ⟨⟨fun _ => rfl, fun _ => rfl⟩, fun j hj => by
          obtain rfl := Option.some.inj hj
          exact List.mem_append_right _ (List.mem_singleton_self _)⟩
        online := fun heq => by cases heq
        stopping := fun hst => by cases hst
        writing := fun status job' hw =>
          ⟨(h.writing status job' hw).1.mono hsub, (h.writing status job' hw).2⟩
        ended := by rw [h.ended, WorkerStage.not_halted hp]; rfl
        halted := fun hhalted => by cases hhalted
        past := h.past
        ended_after := h.ended_after }
  | idle hp =>
      exact { h with
        told := p.controller.told_set_status p.jobs (by decide)
        online := fun heq => by cases heq
        stopping := fun hst => by cases hst
        ended := by rw [h.ended, WorkerStage.not_halted hp]; rfl
        halted := fun hhalted => by cases hhalted }
  | left hp =>
      exact { h with
        told := p.controller.told_set_status p.jobs (by decide)
        online := fun heq => by cases heq
        stopping := fun _ => rfl
        ended := by rw [h.ended, WorkerStage.not_halted hp]; rfl
        halted := fun hhalted => by cases hhalted }
  | beat_done hp =>
      exact { h with
        writing := fun status job hw => by cases hw
        halted := fun _ => rfl }
  | beat_read hp hstop =>
      have hhalted := h.not_halted (by rw [hp]; exact nofun)
      exact { h with
        writing := fun status job hw => by
          cases hw
          refine ⟨h.told, fun hst => ?_, h.online⟩
          rw [h.stopping hst] at hstop
          cases hstop
        halted := fun hhalted' => absurd (hhalted'.symm.trans hhalted) (by decide) }
  | beat_written status job hp | beat_lost status job hp =>
      have hhalted := h.not_halted (by rw [hp]; exact nofun)
      have hnone : p.ended_at = none :=
        Option.not_isSome_iff_eq_none.mp (by rw [h.ended, hhalted]; decide)
      exact { h with
        writing := fun status job hw => by cases hw
        halted := fun hhalted' => absurd (hhalted'.symm.trans hhalted) (by decide)
        past := by first | exact le_rfl | exact h.past
        ended_after := fun t ht => by rw [hnone] at ht; cases ht }
  | marked hp hdone =>
      exact { h with
        ended := rfl
        halted := fun _ => hdone
        past := le_rfl
        ended_after := fun t ht => (Option.some.inj ht).le }
  | unmarked hp hdone =>
      exact { h with
        ended := rfl
        halted := fun _ => hdone
        ended_after := fun t ht => h.past.trans (Option.some.inj ht).le }
  | killed hp =>
      exact { h with
        writing := fun status job hw => by cases hw
        ended := rfl
        halted := fun _ => rfl
        ended_after := fun t ht => h.past.trans (Option.some.inj ht).le }

/-- A row after what a process has written to it. -/
def WorkerRow.written (row : WorkerRow) (now : ℕ) :
    Option (WorkerStatus × Option String) → WorkerRow
  | none => row
  | some (status, job) => { row with status, last_heartbeat_at := some now, current_job_id := job }

/-- **One step of a process, and its row.** A row says what the controller said when the
heartbeat loop read it, which may be some time ago; so it is compared with what the
process has been through, its jobs and its last beat, and not with what it is doing. -/
theorem WorkerProcess.Shown.moves (h : p.Ok now) (hs : p.Shown row) (hm : p.Moves now p' write) :
    p'.Shown (row.written now write) := by
  -- a stage that is not the last one
  have move : ∀ stage : WorkerStage, p.stage.halted = false → stage ≠ .stopped true →
      (row.status = .OFFLINE ↔ stage = .stopped true) := by
    intro stage hhalted hstage
    refine ⟨fun hoff => ?_, fun heq => absurd heq hstage⟩
    rw [hs.offline_iff.mp hoff] at hhalted
    cases hhalted
  cases hm with
  | staged stage hp hstage =>
      exact { hs with
        offline_iff := move stage (WorkerStage.not_halted hp) fun heq => by
          rw [heq] at hstage
          cases hstage }
  | started job todo running hp =>
      exact { hs with
        told := hs.told.mono (List.subset_append_left _ _)
        offline_iff := move _ (WorkerStage.not_halted hp) (by simp) }
  | idle hp | left hp =>
      exact { hs with offline_iff := move _ (WorkerStage.not_halted hp) (by simp) }
  | beat_done hp | beat_read hp hstop | beat_lost status job hp => exact { hs with }
  | beat_written status job hp =>
      obtain ⟨htold, hstopping, hoff⟩ := h.writing status job hp
      refine ⟨htold, hstopping, ⟨fun heq => absurd heq hoff, fun heq => ?_⟩, rfl⟩
      rw [h.halted (by rw [show p.stage = .stopped true from heq]; rfl)] at hp
      cases hp
  | marked hp hdone =>
      exact ⟨.idle nofun, nofun, ⟨fun _ => rfl, fun _ => rfl⟩, rfl⟩
  | unmarked hp hdone =>
      exact { hs with offline_iff := move _ (WorkerStage.live_stopping hp) (by simp) }
  | killed hp => exact { hs with offline_iff := move _ hp (by simp) }

/-- A process that has ended does nothing. -/
theorem WorkerProcess.Ok.not_moves (h : p.Ok now) (hended : p.ended_at.isSome = true) :
    ¬ p.Moves now p' write := by
  intro hm
  have hhalted : p.stage.halted = true := h.ended ▸ hended
  have hdone := h.halted hhalted
  cases hm with
  | staged _ hp | started _ _ _ hp | idle hp | left hp =>
      rw [WorkerStage.not_halted hp] at hhalted
      cases hhalted
  | beat_done hp | beat_read hp | beat_written _ _ hp | beat_lost _ _ hp =>
      rw [hdone] at hp
      cases hp
  | marked hp | unmarked hp =>
      rw [hp] at hhalted
      cases hhalted
  | killed hp =>
      rw [hp] at hhalted
      cases hhalted

end Process

/-! ## Every run -/

/-- Each process has the row of its place, and background tasks are few. -/
structure FleetInv (s : Fleet) : Prop where
  table : WorkersInv s.workers
  length : s.workers.length = s.processes.length
  rows : ∀ (k : ℕ) (p : WorkerProcess), s.processes[k]? = some p →
    ∃ row : WorkerRow, s.workers[k]? = some row ∧ row.id = p.controller.worker_id ∧
      p.Ok s.now ∧ p.Shown row
  limit : s.get_active_worker_count ≤ MAX_SPAWNED_WORKERS

section Runs

variable {s s' : Fleet} {a : FleetAction} {k : ℕ} {p : WorkerProcess}

/-- The id of a process stays, and whether it is a background task; once it has
ended, so does that. -/
theorem WorkerProcess.Moves.same {p' : WorkerProcess} {now : ℕ}
    {write : Option (WorkerStatus × Option String)} (hm : p.Moves now p' write) :
    p'.controller.worker_id = p.controller.worker_id ∧
      (p'.active_background = true → p.active_background = true) := by
  have ended : ∀ (b : Bool) (t : ℕ), (b && (some t).isNone) = true → False := by
    intro b t h
    rw [Option.isNone_some, Bool.and_false] at h
    cases h
  cases hm with
  | marked | unmarked | killed => exact ⟨rfl, fun h => (ended _ _ h).elim⟩
  | _ => exact ⟨rfl, id⟩

/-- What a process writes is written to its row and to no other. -/
theorem getElem?_write_row {workers : List WorkerRow} {row other : WorkerRow} {j : ℕ}
    (hids : (workers.map WorkerRow.id).Nodup) (hk : workers[k]? = some row)
    (hj : workers[j]? = some other) (now : ℕ) (write : Option (WorkerStatus × Option String)) :
    (write_row workers row.id now write)[j]?
      = some (if j = k then row.written now write else other) := by
  have hsame : j = k → other = row := by
    rintro rfl
    exact Option.some.inj (hj.symm.trans hk)
  cases write with
  | none =>
      rw [write_row, hj]
      split
      · rename_i hjk
        rw [hsame hjk]
        rfl
      · rfl
  | some write =>
      rw [write_row, update_heartbeat, List.getElem?_map, hj, Option.map_some]
      by_cases hjk : j = k
      · rw [if_pos hjk, hsame hjk, if_pos rfl]
        rfl
      · have hne : other.id ≠ row.id := by
          intro heq
          have hlt : j < (workers.map WorkerRow.id).length := by
            rw [List.length_map]
            exact (List.getElem?_eq_some_iff.mp hj).1
          refine hjk ((List.getElem?_inj hlt hids).mp ?_)
          rw [List.getElem?_map, List.getElem?_map, hj, hk, Option.map_some, Option.map_some, heq]
        rw [if_neg hjk, if_neg hne]

/-- Ids and names stay. -/
theorem map_key_write_row {κ : Type} (key : WorkerRow → κ) (workers : List WorkerRow)
    (worker_id now : ℕ) (write : Option (WorkerStatus × Option String))
    (hkey : ∀ (row : WorkerRow) (write : WorkerStatus × Option String),
      key (row.written now (some write)) = key row) :
    (write_row workers worker_id now write).map key = workers.map key := by
  cases write with
  | none => rfl
  | some write => exact Selection.map_key_update fun row _ _ => hkey row write

/-- Time passes for a process. -/
theorem WorkerProcess.Ok.mono {now now' : ℕ} (h : p.Ok now) (hle : now ≤ now') : p.Ok now' :=
  { h with past := h.past.trans hle }

/-- The process of a new row. -/
theorem WorkerProcess.ok_new (worker_id now : ℕ) (background : Bool) :
    WorkerProcess.Ok {
      controller := HeartbeatController.set_status { worker_id } .IDLE none
      background := background
      beat_at := now } now where
  told := .idle nofun
  online := nofun
  stopping := nofun
  writing := nofun
  ended := rfl
  halted := nofun
  past := le_rfl
  ended_after := nofun

/-- What a registration does to the table. -/
theorem register_worker_fresh {workers : List WorkerRow} {r : Registration}
    (h : WorkersInv workers) (hfresh : r.worker_name ∉ workers.map WorkerRow.worker_name) :
    (∃ err, register_worker workers r = (.error err, workers)) ∨
    register_worker workers r = (.ok (r.new_row (new_worker_id workers)),
      workers ++ [r.new_row (new_worker_id workers)]) := by
  have hcases := @register_worker_cases workers r h
  have taken : ∀ w ∈ workers, w.worker_name ≠ r.worker_name :=
    fun w hw heq => hfresh (heq ▸ List.mem_map_of_mem hw)
  generalize register_worker workers r = result at hcases ⊢
  cases hcases with
  | inserted => exact .inr rfl
  | refused_size err => exact .inl ⟨err, rfl⟩
  | written w hmem hname => exact absurd hname (taken w hmem)
  | refused_owner err w hmem hname => exact absurd hname (taken w hmem)

/-- The rows after a registration. The name is a new one, so a row is inserted, at the
end, as the process is; its id is taken by no other row. The count of background tasks
stays, because the process was counted among the starting ones before. -/
theorem FleetInv.register (h : FleetInv s) {r : Registration} {background : Bool}
    {starting : List (Registration × Bool)}
    (hname : r.worker_name ∉ s.workers.map WorkerRow.worker_name)
    (hcount : starting.countP Prod.snd + (if background = true then 1 else 0)
      = s.starting.countP Prod.snd) :
    FleetInv { s with
      workers := s.workers ++
        [Registration.new_row { r with now := s.now } (new_worker_id s.workers)]
      starting := starting
      processes := s.processes ++ [{
        controller := HeartbeatController.set_status
          { worker_id := new_worker_id s.workers } .IDLE none
        background := background
        beat_at := s.now }] } where
  table := ⟨Selection.nodup_key_concat h.table.ids (new_worker_id_not_mem _),
    Selection.nodup_key_concat h.table.names hname⟩
  length := by
    rw [List.length_append, List.length_append, h.length]
    rfl
  rows := by
    intro k p hp
    rw [List.getElem?_append] at hp ⊢
    rw [h.length]
    split at hp
    · rename_i hk
      rw [if_pos hk]
      exact h.rows k p hp
    · rename_i hk
      rw [if_neg hk]
      rw [List.getElem?_singleton] at hp ⊢
      split at hp
      · -- the process that has just been registered, on the row that has been added for it
        rename_i hzero
        cases hp
        rw [if_pos hzero]
        exact ⟨_, rfl, rfl, WorkerProcess.ok_new _ _ _,
          ⟨.idle nofun, nofun, ⟨nofun, nofun⟩, rfl⟩⟩
      · cases hp
  limit := by
    -- a background process takes the place of its registration in the count
    have hlimit := h.limit
    rw [Fleet.get_active_worker_count, ← hcount] at hlimit
    refine le_trans ?_ hlimit
    rw [Fleet.get_active_worker_count, List.countP_append, List.countP_singleton]
    cases background with
    | false => simp [WorkerProcess.active_background]
    | true =>
        simp only [WorkerProcess.active_background, Bool.true_and, Option.isNone_none, if_true]
        omega

/-- The rows after a step of a process. It writes its own row, which is found by the id in
its controller, or none. Ids are unique, so the rows of the other processes stay as they
are, and nothing is inserted or removed. -/
theorem FleetInv.act (h : FleetInv s) {p' : WorkerProcess}
    {write : Option (WorkerStatus × Option String)} (hp : s.processes[k]? = some p)
    (hm : p.Moves s.now p' write) :
    FleetInv { s with
      processes := s.processes.set k p'
      workers := write_row s.workers p.controller.worker_id s.now write } := by
  obtain ⟨row, hrow, hid, hok, hshown⟩ := h.rows k p hp
  obtain ⟨hk, hp⟩ := List.getElem?_eq_some_iff.mp hp
  have hlength := h.length
  rw [← List.length_map WorkerRow.id,
    ← map_key_write_row WorkerRow.id s.workers p.controller.worker_id s.now write fun _ _ => rfl,
    List.length_map] at hlength
  refine ⟨⟨?_, ?_⟩, ?_, fun j q hq => ?_, ?_⟩
  · rw [map_key_write_row _ _ _ _ _ fun _ _ => rfl]
    exact h.table.ids
  · rw [map_key_write_row _ _ _ _ _ fun _ _ => rfl]
    exact h.table.names
  · rw [List.length_set]
    exact hlength
  · rw [← hid]
    by_cases hjk : j = k
    · subst hjk
      rw [List.getElem?_set_self hk, Option.some.injEq] at hq
      subst hq
      refine ⟨row.written s.now write, ?_, ?_, hok.moves hm, hshown.moves hok hm⟩
      · rw [getElem?_write_row h.table.ids hrow hrow, if_pos rfl]
      · rw [hm.same.1, ← hid]
        cases write <;> rfl
    · rw [List.getElem?_set_ne (Ne.symm hjk)] at hq
      obtain ⟨other, hother, hrest⟩ := h.rows j q hq
      refine ⟨other, ?_, hrest⟩
      rw [getElem?_write_row h.table.ids hrow hother, if_neg hjk]
  · refine le_trans (Nat.add_le_add_left ?_ _) h.limit
    have hle : (if p'.active_background = true then 1 else 0)
        ≤ if p.active_background = true then 1 else 0 := by
      by_cases hactive : p'.active_background = true
      · rw [if_pos hactive, if_pos (hm.same.2 hactive)]
      · rw [if_neg hactive]
        exact Nat.zero_le _
    have hcount := List.boole_getElem_le_countP (p := WorkerProcess.active_background) hk
    rw [List.countP_set hk, hp]
    rw [hp] at hcount
    omega

/-- **One step.** Two kinds of action do something. A registration appends a process and
its row together ([`FleetInv.register`]); this is where fresh names are needed, for under
a name that is in the table `register_worker` writes to the row of another process. A step
of a process is one of the few kinds that [`WorkerProcess.moves_of_act`] leaves, and these
keep what the process and its row have to do with each other ([`FleetInv.act`]). The spawn
endpoint only adds to those that are starting, and it is what the limit is checked for. -/
theorem FleetInv.step (h : FleetInv s) (hfresh : s.draws_fresh a = true)
    (hs : s.step a = some s') : FleetInv s' := by
  cases a with
  | start worker_name hostname =>
      cases hs
      refine ⟨h.table, h.length, h.rows, ?_⟩
      simpa [Fleet.get_active_worker_count] using h.limit
  -- the endpoint counts those that are starting and those that run before it adds one
  | spawn worker_name hostname owner =>
      simp only [Fleet.step, spawn_background_worker_task] at hs
      split at hs
      · rename_i hok
        split at hok
        · cases hok
        · rename_i hlimit
          cases hok
          cases hs
          refine ⟨h.table, h.length, h.rows, ?_⟩
          rw [Fleet.get_active_worker_count] at hlimit ⊢
          change (s.starting ++ [_]).countP Prod.snd
            + s.processes.countP WorkerProcess.active_background ≤ _
          rw [List.countP_append, List.countP_singleton, if_pos rfl]
          omega
      · cases hs
        exact h
  | register i =>
      simp only [Fleet.step] at hs
      split at hs
      · cases hs
      · rename_i r background htask
        have hname : r.worker_name ∉ s.workers.map WorkerRow.worker_name := by
          simpa [Fleet.draws_fresh, htask] using hfresh
        obtain ⟨hi, htask⟩ := List.getElem?_eq_some_iff.mp htask
        have hcount : (s.starting.eraseIdx i).countP Prod.snd
            + (if background = true then 1 else 0) = s.starting.countP Prod.snd := by
          have hperm := (List.getElem_cons_eraseIdx_perm hi).countP_eq Prod.snd
          rw [htask, List.countP_cons] at hperm
          exact hperm
        rcases @register_worker_fresh _ { r with now := s.now } h.table hname with
          ⟨err, heq⟩ | heq
        · rw [heq] at hs
          cases hs
          refine ⟨h.table, h.length, h.rows, le_trans ?_ h.limit⟩
          exact Nat.add_le_add_right (hcount ▸ Nat.le_add_right _ _) _
        · rw [heq] at hs
          cases hs
          exact h.register hname hcount
  | abort i =>
      simp only [Fleet.step] at hs
      split at hs
      · cases hs
        refine ⟨h.table, h.length, h.rows, le_trans ?_ h.limit⟩
        exact Nat.add_le_add_right ((List.eraseIdx_sublist _ _).countP_le) _
      · cases hs
  | act k a =>
      simp only [Fleet.step] at hs
      split at hs
      · cases hs
      · rename_i p hp
        obtain ⟨⟨p', write⟩, hact, rfl⟩ := Option.map_eq_some_iff.mp hs
        exact h.act hp (WorkerProcess.moves_of_act hact)
  | wait time =>
      cases hs
      refine ⟨h.table, h.length, fun k p hp => ?_, h.limit⟩
      obtain ⟨row, hrow, hid, hok, hshown⟩ := h.rows k p hp
      exact ⟨row, hrow, hid, hok.mono (Nat.le_add_right _ _), hshown⟩

theorem fleetInv_of_run {start : ℕ} (hrun : Fleet.Run { now := start } s) : FleetInv s :=
  hrun.invariant FleetInv
    ⟨⟨List.nodup_nil, List.nodup_nil⟩, rfl, fun _ _ hp => absurd hp (Option.some_ne_none _).symm,
      Nat.zero_le _⟩
    fun _ _ _ h hfresh hs => h.step hfresh hs

/-- A process that has ended stays as it is, and so does its row. No action of its own is
possible any more, the rows that other processes write are their own, and a registration
inserts its row behind. -/
theorem FleetInv.step_ended (h : FleetInv s) (hfresh : s.draws_fresh a = true)
    (hs : s.step a = some s') (hp : s.processes[k]? = some p)
    (hended : p.ended_at.isSome = true) :
    s'.processes[k]? = some p ∧ s'.workers[k]? = s.workers[k]? := by
  obtain ⟨row, hrow, -, hok, -⟩ := h.rows k p hp
  have added : ∀ {α : Type} (l : List α) (x y : α), l[k]? = some x → (l ++ [y])[k]? = some x :=
    fun l x y hl => by
      rw [List.getElem?_append_left (List.getElem?_eq_some_iff.mp hl).1, hl]
  cases a with
  | start | wait =>
      cases hs
      exact ⟨hp, rfl⟩
  | spawn worker_name hostname owner =>
      simp only [Fleet.step, spawn_background_worker_task] at hs
      split at hs
      · rename_i hok
        split at hok
        · cases hok
        · cases hok
          cases hs
          exact ⟨hp, rfl⟩
      · cases hs
        exact ⟨hp, rfl⟩
  | register i =>
      simp only [Fleet.step] at hs
      split at hs
      · cases hs
      · rename_i r background htask
        -- the name is new, so a row is added and none is reused
        have hname : r.worker_name ∉ s.workers.map WorkerRow.worker_name := by
          simpa [Fleet.draws_fresh, htask] using hfresh
        rcases @register_worker_fresh _ { r with now := s.now } h.table hname with
          ⟨err, heq⟩ | heq
        · rw [heq] at hs
          cases hs
          exact ⟨hp, rfl⟩
        · rw [heq] at hs
          cases hs
          exact ⟨added _ _ _ hp, (added _ _ _ hrow).trans hrow.symm⟩
  | abort i =>
      simp only [Fleet.step] at hs
      split at hs
      · cases hs
        exact ⟨hp, rfl⟩
      · cases hs
  | act j a =>
      simp only [Fleet.step] at hs
      split at hs
      · cases hs
      · rename_i q hq
        obtain ⟨⟨q', write⟩, hact, rfl⟩ := Option.map_eq_some_iff.mp hs
        have hm := WorkerProcess.moves_of_act hact
        obtain ⟨row', hrow', hid', -⟩ := h.rows j q hq
        -- a process that has ended does nothing, so it is another one that acts
        have hne : k ≠ j := by
          rintro rfl
          obtain rfl := Option.some.inj (hp.symm.trans hq)
          exact hok.not_moves hended hm
        refine ⟨(List.getElem?_set_ne (Ne.symm hne)).trans hp, ?_⟩
        rw [← hid', getElem?_write_row h.table.ids hrow' hrow, if_neg hne, hrow]

/-- **What a row tells.** The rows are those of the processes that have registered, in
order. A row never says STOPPING; it says OFFLINE exactly if its process has come to its
end and marked it; it names a job exactly if it says BUSY, and one that its process has
begun. The row of a process that has ended, or was killed, is never written again; and no
more than five background tasks are there at once. The first, second and last part are the
invariant [`FleetInv`], read off for one process. The third is about two states of a run,
and an induction along the second half of it: no step touches a process that has ended,
nor its row ([`FleetInv.step_ended`]). -/
theorem worker_rows_follow (start : ℕ) (s : Fleet) (hrun : Fleet.Run { now := start } s) :
    s.workers.length = s.processes.length ∧
    (∀ (k : ℕ) (p : WorkerProcess), s.processes[k]? = some p → ∃ row : WorkerRow,
      s.workers[k]? = some row ∧ row.id = p.controller.worker_id ∧ row.status ≠ .STOPPING ∧
      (row.status = .OFFLINE ↔ p.stage = .stopped true) ∧
      (row.current_job_id.isSome = true ↔ row.status = .BUSY) ∧
      ∀ job ∈ row.current_job_id, job ∈ p.jobs) ∧
    (∀ u, Fleet.Run s u → ∀ (k : ℕ) (p : WorkerProcess), s.processes[k]? = some p →
      p.ended_at.isSome = true →
      u.processes[k]? = some p ∧ u.workers[k]? = s.workers[k]?) ∧
    s.get_active_worker_count ≤ MAX_SPAWNED_WORKERS := by
  have hinv := fleetInv_of_run hrun
  refine ⟨hinv.length, fun k p hp => ?_, fun u hu k p hp hended => ?_, hinv.limit⟩
  · obtain ⟨row, hrow, hid, -, hshown⟩ := hinv.rows k p hp
    exact ⟨row, hrow, hid, hshown.not_stopping, hshown.offline_iff, hshown.told.busy,
      hshown.told.begun⟩
  · refine (hu.invariant (fun v => FleetInv v ∧ v.processes[k]? = some p ∧
      v.workers[k]? = s.workers[k]?) ⟨hinv, hp, rfl⟩ ?_).2
    rintro v a w ⟨hv, hvp, hrow⟩ hfresh hs
    obtain ⟨hwp, hrow'⟩ := hv.step_ended hfresh hs hvp hended
    exact ⟨hv.step hfresh hs, hwp, hrow'.trans hrow⟩

/-- A worker that was killed at its job says BUSY for ever, next to one that has
come to its end. -/
theorem worker_rows_follow_two : ∃ s : Fleet,
    s.workers.map (fun row => (row.worker_name, row.status, row.current_job_id))
      = [("worker-a", .OFFLINE, none), ("worker-b", .BUSY, some "job")] ∧
    ∀ u, Fleet.Run s u → u.workers[1]? = s.workers[1]? := by
  let turn (k : ℕ) (acts : List WorkerAct) : List FleetAction := acts.map (.act k)
  let actions : List FleetAction :=
    [.start "worker-a" "host", .spawn "worker-b" "host" 0, .register 0, .register 0] ++
    turn 1 [.take ["job"], .start_job, .beat, .commit_beat true, .kill] ++
    turn 0 [.beat, .leave, .commit_beat true, .beat, .mark_offline true]
  have hended : (run (restrict Fleet.step Fleet.draws_fresh) {} actions).map
      (fun s => (s.workers.map fun row => (row.worker_name, row.status, row.current_job_id),
        s.processes.map fun p => p.ended_at.isSome))
      = some ([("worker-a", .OFFLINE, none), ("worker-b", .BUSY, some "job")], [true, true]) := by
    decide +kernel
  obtain ⟨s, hs, hfacts⟩ := Option.map_eq_some_iff.mp hended
  obtain ⟨hrows, hprocesses⟩ := Prod.mk.inj hfacts
  have hone : (s.processes.map fun p => p.ended_at.isSome)[1]? = some true := by
    rw [hprocesses]
    rfl
  rw [List.getElem?_map, Option.map_eq_some_iff] at hone
  obtain ⟨p, hp, hgone⟩ := hone
  exact ⟨s, hrows, fun u hu =>
    ((worker_rows_follow 0 s (reaches_of_run hs)).2.2.1 u hu 1 p hp hgone).2⟩

end Runs

end EventFlow
