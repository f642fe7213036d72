/-
The recovery pass of `worker/recovery.py` against the batch loop of
`run_worker`, over the pending list of the consumer group.

`_claim_stale_pending` asks Redis for the first `batch_size` pending entries and
keeps those that have been idle for long enough. The window is taken before the
entries are looked at: [`claim_sees_stale_iff`] says that all stale entries are
claimed exactly when none of them lies behind the window.

One turn of `run_recovery_loop` works through the claimed jobs one after the
other under a single `try`; `run_worker` hands each job of a batch to a task of
its own and gathers them with `return_exceptions`. What a job does to the
database is a parameter (`process_recovered_job` and `process_job` are in
`Runtime.lean`), and so is which of the calls raise. [`recovery_isolates_iff`]
compares the two loops.
-/
import EventFlow.Library.PendingList
import Mathlib.Order.Nat

set_option autoImplicit false

namespace EventFlow

variable {ι φ σ : Type} [LinearOrder ι]

/-! ## Claiming -/

/-- A tuple `(message_id, fields, previous_consumer)`. -/
abbrev ClaimedJob (ι φ : Type) := ι × φ × Option String

/-- `idle_ms >= idle_timeout_ms`. -/
def stale (idle_timeout_ms : ℤ) (e : PendingEntry ι φ) : Bool :=
  decide (idle_timeout_ms ≤ e.idle)

/-- `_claim_stale_pending`, with the list that it leaves. -/
def claim_stale_pending (p : PendingList ι φ) (consumer_name : String) (idle_timeout_ms : ℤ)
    (batch_size : ℕ) : List (ClaimedJob ι φ) × PendingList ι φ :=
  let pending := p.range batch_size
  -- one loop over `pending` fills both
  let stale_ids := (pending.filter (stale idle_timeout_ms)).map PendingEntry.message_id
  let previous_by_id := (pending.filter (stale idle_timeout_ms)).map fun entry =>
    (entry.message_id, entry.consumer)
  if stale_ids = [] then ([], p)
  else
    let claimed := p.claim consumer_name idle_timeout_ms stale_ids
    (claimed.1.map fun job => (job.1, job.2, previous_by_id.lookup job.1), claimed.2)

/-- The tuple of an entry. -/
def job_of (e : PendingEntry ι φ) : ClaimedJob ι φ :=
  (e.message_id, e.fields, some e.consumer)

section Claim

variable {p : PendingList ι φ} {consumer_name : String} {idle_timeout_ms : ℤ} {batch_size : ℕ}

theorem lookup_consumer {es : List (PendingEntry ι φ)} {e : PendingEntry ι φ} (he : e ∈ es)
    (hnodup : (es.map PendingEntry.message_id).Nodup) :
    (es.map fun a => (a.message_id, a.consumer)).lookup e.message_id = some e.consumer := by
  induction es with
  | nil => cases he
  | cons a es ih =>
      rw [List.map_cons, List.nodup_cons] at hnodup
      rw [List.map_cons, List.lookup_cons]
      rcases List.mem_cons.mp he with rfl | he
      · rw [beq_self_eq_true]
      · have hne : e.message_id ≠ a.message_id := by
          intro heq
          exact hnodup.1 (heq ▸ List.mem_map_of_mem he)
        rw [beq_eq_false_iff_ne.mpr hne]
        exact ih he hnodup.2

/-- **What a call returns**: the stale entries of the window, in order. -/
theorem claim_stale_pending_jobs (p : PendingList ι φ) (consumer_name : String)
    (idle_timeout_ms : ℤ) (batch_size : ℕ) :
    (claim_stale_pending p consumer_name idle_timeout_ms batch_size).1
      = ((p.entries.take batch_size).filter (stale idle_timeout_ms)).map job_of := by
  have hsub : ∀ e ∈ (p.entries.take batch_size).filter (stale idle_timeout_ms),
      e ∈ p.entries := fun e he => List.mem_of_mem_take (List.mem_filter.mp he).1
  have hidle : ∀ e ∈ (p.entries.take batch_size).filter (stale idle_timeout_ms),
      idle_timeout_ms ≤ e.idle := fun e he => of_decide_eq_true (List.mem_filter.mp he).2
  have hnodup : (((p.entries.take batch_size).filter (stale idle_timeout_ms)).map
      PendingEntry.message_id).Nodup :=
    p.nodup_ids.sublist ((List.filter_sublist.trans (List.take_sublist _ _)).map _)
  unfold claim_stale_pending PendingList.range
  dsimp only
  split
  · rename_i hnone
    rw [List.map_eq_nil_iff.mp hnone]
    rfl
  · rw [PendingList.claim_entries hsub hidle, List.map_map]
    refine List.map_congr_left fun e he => ?_
    rw [Function.comp_apply, lookup_consumer he hnodup]
    rfl

/-- The list that a call leaves: the stale entries of the window are handed
over. -/
theorem claim_stale_pending_entries (p : PendingList ι φ) (consumer_name : String)
    (idle_timeout_ms : ℤ) (batch_size : ℕ) :
    (claim_stale_pending p consumer_name idle_timeout_ms batch_size).2.entries
      = p.entries.map (PendingList.claimed consumer_name idle_timeout_ms
        (((p.entries.take batch_size).filter (stale idle_timeout_ms)).map
          PendingEntry.message_id)) := by
  unfold claim_stale_pending PendingList.range
  dsimp only
  split
  · rename_i hnone
    rw [hnone]
    conv_lhs => rw [← List.map_id p.entries]
    refine List.map_congr_left fun e _ => ?_
    rw [PendingList.claimed, if_neg (by simp)]
    rfl
  · rfl

end Claim

/-- A call sees every stale entry: if there are no more of them than a batch
holds, each is returned with its fields and its owner and is handed over; and
nothing else is returned. -/
structure SeesStale (p : PendingList ι φ) (consumer_name : String) (idle_timeout_ms : ℤ)
    (batch_size : ℕ) (jobs : List (ClaimedJob ι φ)) (p' : PendingList ι φ) : Prop where
  all : (p.entries.filter (stale idle_timeout_ms)).length ≤ batch_size →
    ∀ e ∈ p.entries, stale idle_timeout_ms e = true →
      job_of e ∈ jobs ∧ { e with consumer := consumer_name, idle := 0 } ∈ p'.entries
  only : ∀ job ∈ jobs, ∃ e ∈ p.entries, stale idle_timeout_ms e = true ∧ job = job_of e
  once : (jobs.map Prod.fst).Nodup

/-- **When a recovery pass sees every stale job.** There are more stale entries than a
batch holds, or all entries behind the `batch_size` lowest ids are fresh. To the right: an
entry that is returned is in the window, and ids are distinct, so a stale entry behind the
window cannot be the one returned. To the left: with fewer stale entries than the batch
size all of them have to be in the window, and the idle time alone decides there. -/
theorem claim_sees_stale_iff (p : PendingList ι φ) (consumer_name : String)
    (idle_timeout_ms : ℤ) (batch_size : ℕ) :
    SeesStale p consumer_name idle_timeout_ms batch_size
        (claim_stale_pending p consumer_name idle_timeout_ms batch_size).1
        (claim_stale_pending p consumer_name idle_timeout_ms batch_size).2 ↔
      batch_size < (p.entries.filter (stale idle_timeout_ms)).length ∨
        ∀ e ∈ p.entries.drop batch_size, stale idle_timeout_ms e = false := by
  have hjobs := claim_stale_pending_jobs p consumer_name idle_timeout_ms batch_size
  have hentries := claim_stale_pending_entries p consumer_name idle_timeout_ms batch_size
  constructor
  · intro h
    rw [or_iff_not_imp_left, Nat.not_lt]
    intro hfew e he
    by_contra hstale
    rw [Bool.not_eq_false] at hstale
    -- a returned entry is in the window, so it is not behind it
    obtain ⟨hmem, -⟩ := h.all hfew e (List.mem_of_mem_drop he) hstale
    rw [hjobs] at hmem
    obtain ⟨a, ha, hjob⟩ := List.mem_map.mp hmem
    have htake := (List.mem_filter.mp ha).1
    obtain rfl := PendingList.eq_of_message_id (List.mem_of_mem_take htake)
      (List.mem_of_mem_drop he) (congrArg Prod.fst hjob)
    have hnodup := p.nodup_ids.of_map
    rw [← List.take_append_drop batch_size p.entries] at hnodup
    exact (List.disjoint_of_nodup_append hnodup) htake he
  · intro h
    constructor
    · intro hfew e he hstale
      have htake : e ∈ p.entries.take batch_size := by
        rcases h with h | h
        · omega
        · rw [← List.take_append_drop batch_size p.entries] at he
          rcases List.mem_append.mp he with he | he
          · exact he
          · rw [h e he] at hstale
            cases hstale
      have hmem := List.mem_filter.mpr ⟨htake, hstale⟩
      rw [hjobs, hentries]
      refine ⟨List.mem_map_of_mem hmem, List.mem_map.mpr ⟨e, he, ?_⟩⟩
      rw [PendingList.claimed, if_pos]
      exact ⟨List.mem_map_of_mem hmem, of_decide_eq_true hstale⟩
    · intro job hjob
      rw [hjobs] at hjob
      obtain ⟨e, he, rfl⟩ := List.mem_map.mp hjob
      obtain ⟨htake, hstale⟩ := List.mem_filter.mp he
      exact ⟨e, List.mem_of_mem_take htake, hstale, rfl⟩
    · rw [hjobs, List.map_map]
      exact p.nodup_ids.sublist ((List.filter_sublist.trans (List.take_sublist _ _)).map _)

/-- Ten entries that were delivered just now, and one behind them whose worker is
long dead. -/
def crowded : PendingList ℕ Unit where
  entries := (List.range 10).map (fun id => ⟨id, "busy", 0, ()⟩) ++ [⟨10, "dead", 60000, ()⟩]
  sorted := by decide

/-- **Fresh entries hide a stale one.** It is the only one, and the batch holds
ten. -/
theorem window_hides_stale_job :
    (crowded.entries.filter (stale 30000)).length ≤ 10 ∧
      (claim_stale_pending crowded "recovery" 30000 10).1 = [] ∧
      ¬ SeesStale crowded "recovery" 30000 10 (claim_stale_pending crowded "recovery" 30000 10).1
        (claim_stale_pending crowded "recovery" 30000 10).2 := by
  have hnone : (claim_stale_pending crowded "recovery" 30000 10).1 = [] := rfl
  refine ⟨by decide, hnone, fun h => ?_⟩
  have hmem := (h.all (by decide) ⟨10, "dead", 60000, ()⟩ (by decide) (by decide)).1
  rw [hnone] at hmem
  cases hmem

/-! ## The two loops -/

/-- The database, the pending list, and the calls made so far. -/
structure LoopState (σ ι φ : Type) [LinearOrder ι] where
  db : σ
  pending : PendingList ι φ
  processed : List ι := []

section Loops

variable (process : ClaimedJob ι φ → σ → σ) (raises : ι → Bool)

/-- One call: what it does to the database stays even if it raises. -/
def LoopState.call (s : LoopState σ ι φ) (job : ClaimedJob ι φ) : LoopState σ ι φ :=
  { s with db := process job s.db, processed := s.processed ++ [job.1] }

/-- `redis.xack`. -/
def LoopState.xack (s : LoopState σ ι φ) (id : ι) : LoopState σ ι φ :=
  { s with pending := s.pending.ack id }

/-- The `for` statement of `run_recovery_loop`: an exception leaves it for the
handler around the whole turn. -/
def recovery_pass : List (ClaimedJob ι φ) → LoopState σ ι φ → LoopState σ ι φ
  | [], s => s
  | job :: rest, s =>
    if raises job.1 then s.call process job
    else recovery_pass rest ((s.call process job).xack job.1)

/-- A batch of `run_worker`: the tasks of `gather(..., return_exceptions=True)`
in the order in which they end. A task that raises has not come to its ack. -/
def worker_batch : List (ClaimedJob ι φ) → LoopState σ ι φ → LoopState σ ι φ
  | [], s => s
  | job :: rest, s =>
    if raises job.1 then worker_batch rest (s.call process job)
    else worker_batch rest ((s.call process job).xack job.1)

/-- Every job of a batch is handled by itself. -/
structure HandlesEach (jobs : List (ClaimedJob ι φ)) (s s' : LoopState σ ι φ) : Prop where
  /-- Each is processed, once. -/
  processed : s'.processed = s.processed ++ jobs.map Prod.fst
  /-- Each acts on what those before it have left, raised or not. -/
  db : s'.db = jobs.foldl (fun db job => process job db) s.db
  /-- It is acked if its processing returned, and pending if it raised. -/
  acked : ∀ job ∈ jobs, ¬ s'.pending.Pending job.1 ↔ raises job.1 = false
  /-- Nothing else is acked. -/
  others : ∀ id ∉ jobs.map Prod.fst, s'.pending.Pending id ↔ s.pending.Pending id

variable {process raises} {jobs : List (ClaimedJob ι φ)} {s : LoopState σ ι φ}

/-- A batch of distinct pending jobs is handled one by one, whoever raises. By induction
on the jobs. A task acks its own message and nobody else's, since the ids are distinct;
and what a task has raised is kept by `gather` as its result, so the next task does not
see it. -/
theorem worker_batch_handles (hnodup : (jobs.map Prod.fst).Nodup)
    (hpending : ∀ job ∈ jobs, s.pending.Pending job.1) :
    HandlesEach process raises jobs s (worker_batch process raises jobs s) := by
  induction jobs generalizing s with
  | nil => exact ⟨by simp [worker_batch], rfl, by simp, by simp [worker_batch]⟩
  | cons job rest ih =>
      rw [List.map_cons, List.nodup_cons] at hnodup
      obtain ⟨hnew, hnodup⟩ := hnodup
      have hne : ∀ other ∈ rest, other.1 ≠ job.1 := by
        intro other hother heq
        exact hnew (heq ▸ List.mem_map_of_mem hother)
      -- the job itself: its call, and its ack unless it raises
      obtain ⟨u, hu⟩ : ∃ u, u = if raises job.1 then s.call process job
          else (s.call process job).xack job.1 := ⟨_, rfl⟩
      have hrun : worker_batch process raises (job :: rest) s
          = worker_batch process raises rest u := by
        rw [hu, worker_batch]
        split <;> rfl
      have hdb : u.db = process job s.db ∧ u.processed = s.processed ++ [job.1] := by
        rw [hu]
        split <;> exact ⟨rfl, rfl⟩
      have hpend : ∀ id, u.pending.Pending id ↔
          s.pending.Pending id ∧ (id = job.1 → raises job.1 = true) := by
        intro id
        rw [hu]
        split
        · rename_i hraise
          simp [LoopState.call, hraise]
        · rename_i hraise
          rw [LoopState.xack, PendingList.pending_ack]
          simp [LoopState.call, hraise]
      obtain ⟨h1, h2, h3, h4⟩ := ih (s := u) hnodup (by
        intro other hother
        rw [hpend]
        exact ⟨hpending other (List.mem_cons_of_mem _ hother),
          fun heq => absurd heq (hne other hother)⟩)
      rw [hrun]
      refine ⟨?_, ?_, ?_, ?_⟩
      · rw [h1, hdb.2, List.append_assoc]
        rfl
      · rw [h2, hdb.1]
        rfl
      · intro other hother
        rcases List.mem_cons.mp hother with rfl | hother
        · rw [h4 _ hnew, hpend]
          simp [hpending other List.mem_cons_self]
        · exact h3 other hother
      · intro id hid
        rw [List.map_cons, List.mem_cons, not_or] at hid
        rw [h4 id hid.2, hpend]
        simp [hid.1]

/-- Where only the last job raises, if any, the recovery pass does what the batch
does. -/
theorem recovery_pass_eq (h : ∀ job ∈ jobs.dropLast, raises job.1 = false) :
    recovery_pass process raises jobs s = worker_batch process raises jobs s := by
  induction jobs generalizing s with
  | nil => rfl
  | cons job rest ih =>
      cases rest with
      | nil =>
          rw [recovery_pass, worker_batch]
          split <;> rfl
      | cons next rest =>
          rw [List.dropLast_cons_cons] at h
          rw [recovery_pass, worker_batch, h job List.mem_cons_self]
          exact ih fun other hother => h other (List.mem_cons_of_mem _ hother)

/-- A job that raises before the last one ends the pass: the jobs behind it are
not called. -/
theorem recovery_pass_stops (process : ClaimedJob ι φ → σ → σ) (s : LoopState σ ι φ)
    (h : ∃ job ∈ jobs.dropLast, raises job.1 = true) :
    (recovery_pass process raises jobs s).processed.length < s.processed.length + jobs.length := by
  induction jobs generalizing s with
  | nil =>
      obtain ⟨job, hjob, -⟩ := h
      cases hjob
  | cons job rest ih =>
      cases rest with
      | nil =>
          obtain ⟨job, hjob, -⟩ := h
          cases hjob
      | cons next rest =>
          rw [List.dropLast_cons_cons] at h
          rw [recovery_pass]
          split
          · simp only [LoopState.call, List.length_append, List.length_cons, List.length_nil]
            omega
          · rename_i hreturn
            have hrest : ∃ other ∈ (next :: rest).dropLast, raises other.1 = true := by
              obtain ⟨other, hother, hraise⟩ := h
              rcases List.mem_cons.mp hother with rfl | hother
              · exact absurd hraise hreturn
              · exact ⟨other, hother, hraise⟩
            have hshort := ih (s := (s.call process job).xack job.1) hrest
            simp only [LoopState.call, LoopState.xack, List.length_append, List.length_cons,
              List.length_nil] at hshort ⊢
            omega

end Loops

/-! ## One turn of the recovery loop -/

/-- The jobs of a turn are distinct and pending. -/
theorem claim_stale_pending_pending (p : PendingList ι φ) (consumer_name : String)
    (idle_timeout_ms : ℤ) (batch_size : ℕ) :
    ((claim_stale_pending p consumer_name idle_timeout_ms batch_size).1.map Prod.fst).Nodup ∧
      ∀ job ∈ (claim_stale_pending p consumer_name idle_timeout_ms batch_size).1,
        (claim_stale_pending p consumer_name idle_timeout_ms batch_size).2.Pending job.1 := by
  rw [claim_stale_pending_jobs]
  constructor
  · rw [List.map_map]
    exact p.nodup_ids.sublist ((List.filter_sublist.trans (List.take_sublist _ _)).map _)
  · intro job hjob
    obtain ⟨e, he, rfl⟩ := List.mem_map.mp hjob
    have hmem := List.mem_of_mem_take (List.mem_filter.mp he).1
    rw [PendingList.Pending, claim_stale_pending_entries]
    exact ⟨_, List.mem_map_of_mem hmem, PendingList.claimed_message_id ..⟩

/-- The state of a turn after its claim. -/
def after_claim (db : σ) (p : PendingList ι φ) (consumer_name : String) (idle_timeout_ms : ℤ)
    (batch_size : ℕ) : LoopState σ ι φ where
  db := db
  pending := (claim_stale_pending p consumer_name idle_timeout_ms batch_size).2

/-- **When one bad job does not block the others.** Whatever a turn has claimed and
whichever calls raise: a batch of `run_worker` with these jobs handles each by itself, in
every order in which its tasks end. The recovery pass does so if and only if no call but
the last one raises. If a job before the last one raises, the loop stops there, and the
number of processed jobs is too small ([`recovery_pass_stops`]). If none does, the pass
makes the same calls and the same acks as the batch ([`recovery_pass_eq`]): the last job
may raise, as nothing comes after it. -/
theorem recovery_isolates_iff (process : ClaimedJob ι φ → σ → σ) (raises : ι → Bool) (db : σ)
    (p : PendingList ι φ) (consumer_name : String) (idle_timeout_ms : ℤ) (batch_size : ℕ) :
    (∀ order : List (ClaimedJob ι φ),
      order.Perm (claim_stale_pending p consumer_name idle_timeout_ms batch_size).1 →
      HandlesEach process raises order
        (after_claim db p consumer_name idle_timeout_ms batch_size)
        (worker_batch process raises order
          (after_claim db p consumer_name idle_timeout_ms batch_size))) ∧
    (HandlesEach process raises
        (claim_stale_pending p consumer_name idle_timeout_ms batch_size).1
        (after_claim db p consumer_name idle_timeout_ms batch_size)
        (recovery_pass process raises
          (claim_stale_pending p consumer_name idle_timeout_ms batch_size).1
          (after_claim db p consumer_name idle_timeout_ms batch_size)) ↔
      ∀ job ∈ (claim_stale_pending p consumer_name idle_timeout_ms batch_size).1.dropLast,
        raises job.1 = false) := by
  obtain ⟨hnodup, hpending⟩ :=
    claim_stale_pending_pending p consumer_name idle_timeout_ms batch_size
  constructor
  · intro order hperm
    exact worker_batch_handles ((hperm.map Prod.fst).nodup_iff.mpr hnodup)
      fun job hjob => hpending job (hperm.mem_iff.mp hjob)
  constructor
  · intro h job hjob
    by_contra hraise
    rw [Bool.not_eq_false] at hraise
    -- the pass has stopped there, and the last job was not looked at
    have hshort := recovery_pass_stops process
      (after_claim db p consumer_name idle_timeout_ms batch_size) ⟨job, hjob, hraise⟩
    rw [h.processed, List.length_append, List.length_map] at hshort
    omega
  · intro h
    rw [recovery_pass_eq h]
    exact worker_batch_handles hnodup hpending

/-- Two stale jobs of one dead worker. -/
def two_stale : PendingList ℕ Unit where
  entries := [⟨0, "dead", 90000, ()⟩, ⟨1, "dead", 90000, ()⟩]
  sorted := by decide

/-- **The first job raises, and the second is not looked at.** Both have been
claimed, so its idle time starts again. -/
theorem bad_job_blocks_next :
    (claim_stale_pending two_stale "recovery" 30000 10).1.map Prod.fst = [0, 1] ∧
      (recovery_pass (fun _ db => db) (fun id => decide (id = 0))
        (claim_stale_pending two_stale "recovery" 30000 10).1
        (after_claim () two_stale "recovery" 30000 10)).processed = [0] ∧
      (recovery_pass (fun _ db => db) (fun id => decide (id = 0))
        (claim_stale_pending two_stale "recovery" 30000 10).1
        (after_claim () two_stale "recovery" 30000 10)).pending.entries
        = [⟨0, "recovery", 0, ()⟩, ⟨1, "recovery", 0, ()⟩] ∧
      ¬ HandlesEach (fun _ db => db) (fun id => decide (id = 0))
        (claim_stale_pending two_stale "recovery" 30000 10).1
        (after_claim () two_stale "recovery" 30000 10)
        (recovery_pass (fun _ db => db) (fun id => decide (id = 0))
          (claim_stale_pending two_stale "recovery" 30000 10).1
          (after_claim () two_stale "recovery" 30000 10)) := by
  refine ⟨rfl, rfl, rfl, fun h => ?_⟩
  have hlength := congrArg List.length h.processed
  cases hlength

end EventFlow
