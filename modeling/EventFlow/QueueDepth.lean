/-
The depth of the queue that `RedisStreamQueuePublisher.queue_depth` reports.

The publisher adds to the stream with `XADD`, the workers and the recovery loop
acknowledge with `XACK`, and the depth is `XLEN`. An acknowledgement takes an
entry off the group's pending list and leaves it in the stream, and nothing ever
takes one out of the stream (there is no `XDEL`, no `XTRIM` and no `MAXLEN`). So
the depth counts what was ever published: the backlog, and everything that was
acknowledged before.
-/
import EventFlow.Safety

set_option autoImplicit false

namespace EventFlow

open Transition

namespace Sys

/-- `queue_depth`: `XLEN` of the stream. -/
def queue_depth (s : Sys) : ℕ := s.stream.length

/-- The entries that have not been acked. -/
def backlog (s : Sys) : ℕ := s.stream.countP fun entry => !entry.acked

/-- The entries that have been acked. -/
def acked (s : Sys) : ℕ := s.stream.countP StreamEntry.acked

end Sys

/-- `XADD`. -/
def Action.publishes : Action → Bool
  | .publish _ => true
  | _ => false

/-- `XACK`. -/
def Action.acks : Action → Bool
  | .ack _ => true
  | _ => false

section Steps

variable {env : Env} {s s' : Sys}

/-- Only a publish and an ack touch the stream. -/
theorem Effect.stream_eq {a : Action} (h : Effect env s a s') (hpublish : a.publishes = false)
    (hack : a.acks = false) : s'.stream = s.stream := by
  cases h with
  | publish htask => cases hpublish
  | ack htask => cases hack
  | _ => rfl

theorem publish_stream {t : ℕ} (h : s.publish t = some s') :
    ∃ job, s'.stream = s.stream ++ [{ job := job }] := by
  unfold Sys.publish at h
  split at h
  · rename_i msg e job owed sent events htask
    cases h
    exact ⟨job, rfl⟩
  · cases h

theorem ack_stream {t : ℕ} (h : s.ack t = some s') :
    ∃ m, s'.stream = Sys.xack s.stream m := by
  unfold Sys.ack at h
  split at h
  · rename_i m htask
    cases h
    exact ⟨m, rfl⟩
  · cases h

/-- A step adds an entry if it publishes, and else keeps their number. -/
theorem step_queue_depth {a : Action} (htyped : s.Typed env) (hstep : s.step env a = some s') :
    s'.queue_depth = s.queue_depth + if a.publishes then 1 else 0 := by
  obtain ⟨u, h, rfl⟩ := Option.map_eq_some_iff.mp hstep
  show u.stream.length = s.stream.length + _
  cases a with
  | publish t =>
      obtain ⟨job, hstream⟩ := publish_stream h
      rw [hstream, List.length_append]
      rfl
  | ack t =>
      obtain ⟨m, hstream⟩ := ack_stream h
      rw [hstream, Sys.xack, List.length_modify]
      rfl
  | _ =>
      rw [(effect_of_act htyped h).stream_eq rfl rfl]
      rfl

/-- **Runs.** The depth grows by the number of publishes. By induction on the actions; the
step is that nothing but a publish changes the length of the stream. -/
theorem run_queue_depth {actions : List Action} (htyped : s.Typed env)
    (h : run (Sys.step env) s actions = some s') :
    s'.queue_depth = s.queue_depth + actions.countP Action.publishes := by
  induction actions generalizing s with
  | nil =>
      cases h
      rfl
  | cons a actions ih =>
      rw [run_cons, Option.bind_eq_some_iff] at h
      obtain ⟨u, hstep, hrest⟩ := h
      rw [ih (typed_of_step htyped hstep) hrest, step_queue_depth htyped hstep, List.countP_cons]
      omega

end Steps

/-- The depth is the backlog and what was acked. -/
theorem Sys.queue_depth_eq (s : Sys) : s.queue_depth = s.backlog + s.acked := by
  unfold queue_depth backlog acked
  rw [List.length_eq_countP_add_countP StreamEntry.acked, Nat.add_comm]
  congr 1
  apply List.countP_congr
  intro entry _
  simp

/-- **The queue does not drain.** After any run the reported depth is the number of
publishes, the backlog together with all entries that were acked; from there on it only
grows, by one with every publish; and it is the backlog exactly if no entry has been
acked. An ack marks its entry and leaves it where it is, so the length of the stream is
the number of all that were added, acked or not. -/
theorem queue_depth_counts_publishes (env : Env) (actions : List Action) (s : Sys)
    (hrun : run (Sys.step env) Sys.init actions = some s) :
    s.queue_depth = actions.countP Action.publishes ∧
      s.queue_depth = s.backlog + s.acked ∧
      (s.queue_depth = s.backlog ↔ ∀ entry ∈ s.stream, entry.acked = false) ∧
      ∀ (more : List Action) (s' : Sys), run (Sys.step env) s more = some s' →
        s'.queue_depth = s.queue_depth + more.countP Action.publishes := by
  have htyped : s.Typed env :=
    run_invariant (fun u => u.Typed env) hrun typed_init fun _ _ _ => typed_of_step
  have hdepth := s.queue_depth_eq
  refine ⟨?_, hdepth, ?_, fun more s' => run_queue_depth htyped⟩
  · have hcount := run_queue_depth typed_init hrun
    rw [hcount]
    exact Nat.zero_add _
  · have hacked : s.acked = 0 ↔ ∀ entry ∈ s.stream, entry.acked = false := by
      unfold Sys.acked
      rw [List.countP_eq_zero]
      simp
    rw [← hacked]
    omega

/-- One job is published, run and acked. -/
def drained_run : List Action :=
  [.start 0 0 none 0, .publish 0, .finish 0,
    .claim 1 0, .flush 1, .flush 1, .invoke 1, .complete 1 succeeded, .finish 1,
    .flush 1, .flush 1, .flush 1, .ack 1]

theorem queue_depth_counts_publishes_drained :
    ∃ s, run (Sys.step (env_of solo)) Sys.init drained_run = some s ∧ s.queue_depth = 1 ∧
      s.queue_depth = s.backlog + s.acked := by
  have hend : (run (Sys.step (env_of solo)) Sys.init drained_run).map Sys.queue_depth
      = some 1 := by decide +kernel
  obtain ⟨s, hrun, hdepth⟩ := Option.map_eq_some_iff.mp hend
  exact ⟨s, hrun, hdepth,
    (queue_depth_counts_publishes (env_of solo) drained_run s hrun).2.1⟩

/-- **A drained queue has a depth.** Every published entry is acked, and the depth
is not 0. -/
theorem drained_queue_depth : ¬ ∀ (env : Env) (actions : List Action) (s : Sys),
    run (Sys.step env) Sys.init actions = some s → s.queue_depth = s.backlog := by
  intro h
  have hend : (run (Sys.step (env_of solo)) Sys.init drained_run).map
      (fun s => (s.queue_depth, s.backlog)) = some (1, 0) := by decide +kernel
  obtain ⟨s, hrun, hs⟩ := Option.map_eq_some_iff.mp hend
  have hdepth := h (env_of solo) drained_run s hrun
  rw [Prod.mk.injEq] at hs
  rw [hs.1, hs.2] at hdepth
  cases hdepth

end EventFlow
