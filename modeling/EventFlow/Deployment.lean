/-
The engine and the workers' queue side by side.

`System.lean` leaves delivery open: there an entry may come to any task at any time.
`Consumers.lean` says who reads and claims what, and leaves open what is done for
it. Here the two run together. A task of the engine belongs to a worker process, to
the tasks of its batch or to its recovery loop; it takes up what this loop has in
hand, and when it puts its entry down, acked or not, the loop goes on. A process
dies with all its tasks.

[`Deployment.sys_reaches`] and [`Deployment.queue_reaches`] are the two
projections: what has been said of the runs of either side holds of it here. What
they have to do with each other is the invariant [`Deployed`]. [`streams_agree`] and
[`sole_handler`] are what comes of it.
-/
import EventFlow.Consumers
import EventFlow.Safety

set_option autoImplicit false

namespace EventFlow

open Transition

/-! ## The two sides -/

/-- The entry that a task has in hand. -/
def Phase.msg : Phase → Option ℕ
  | .idle => none
  | .recovered m _ _ => some m
  | .claimed m _ _ => some m
  | .invoked m _ _ => some m
  | .publishing msg _ _ _ => msg
  | .returning msg => msg

/-- The entry that an action takes up. -/
def Action.begins : Action → Option ℕ
  | .claim _ m | .recover _ m | .recover_claim _ m => some m
  | _ => none

/-- Whether the call that an action ends has raised: only the ack is an end without. -/
def Action.raises : Action → Bool
  | .ack _ => false
  | _ => true

/-- Where the tasks run: in which worker, and whether in its recovery loop. -/
structure Placement where
  process : ℕ → ℕ
  recovers : ℕ → Bool

structure Deployment where
  sys : Sys := Sys.init
  queue : Queue Job := {}

inductive DeploymentAction where
  | engine (a : Action)
  | queue (a : QueueAction Job)
  /-- Worker `w` dies, in the midst of these tasks. -/
  | die (w : ℕ) (tasks : List ℕ)

namespace Deployment

/-- The entry that task `t` has in hand. -/
def msg (d : Deployment) (t : ℕ) : Option ℕ := (d.sys.tasks t).phase.msg

/-- The loop of task `t` has it to take up entry `m`: any of a batch, but a recovery
pass works in order. -/
def Offers (pl : Placement) (q : Queue Job) (t m : ℕ) : Prop :=
  if pl.recovers t then ((q.consumers (pl.process t)).claimed.map Prod.fst).head? = some m
  else m ∈ (q.consumers (pl.process t)).batch

/-- The call of task `t` about entry `m` ends. -/
def call_ends (pl : Placement) (q : Queue Job) (t m : ℕ) (raises : Bool) : Option (Queue Job) :=
  if pl.recovers t then q.recover_next (pl.process t) raises
  else q.task_ends (pl.process t) m raises

/-- The stream has grown. -/
def publish_all (q : Queue Job) (entries : List StreamEntry) : Queue Job :=
  entries.foldl (fun q entry => { q with group := q.group.add entry.job }) q

/-- What a step of the engine, to `s`, is for the workers. -/
def follow (pl : Placement) (d : Deployment) (a : Action) (s : Sys) : Option (Queue Job) :=
  let q := publish_all d.queue (s.stream.drop d.sys.stream.length)
  match a.task with
  | none => some q
  | some t =>
    -- a claim that raises begins and ends a call in one step
    match a.begins.or (d.msg t), (s.tasks t).phase.msg with
    | some m, none => call_ends pl q t m a.raises
    | _, _ => some q

def step (env : Env) (cfg : QueueConfig) (pl : Placement) (d : Deployment) :
    DeploymentAction → Option Deployment
  | .engine a => (d.sys.step env a).bind fun s =>
      (d.follow pl a s).map fun queue => { sys := s, queue }
  | .queue a => (d.queue.step cfg a).map fun queue => { d with queue }
  | .die w tasks => (run (Sys.step env) d.sys (tasks.map .crash)).map fun s =>
      { sys := s, queue := d.queue.hold w {} }

/-- What the code allows. A task is started for each entry that its loop comes to, once:
`_run_one_job` once for each message of a batch, and a recovery pass job after job. What
ends a call is up to the engine; a task that is cut off by itself, as when its database
raises, is for its loop a call that has raised ([`follow`]). A process that dies takes
with it all its tasks that have something in hand, and no others. -/
def Allowed (pl : Placement) (d : Deployment) : DeploymentAction → Prop
  | .engine a =>
      ∀ t m, a.task = some t → a.begins = some m → Offers pl d.queue t m ∧
        ∀ t', pl.process t' = pl.process t → pl.recovers t' = pl.recovers t →
          d.msg t' ≠ some m
  | .queue a => match a with
      | .read _ | .claim_stale _ | .elapse _ => True
      | _ => False
  | .die w tasks => (∀ t ∈ tasks, pl.process t = w) ∧
      ∀ t, pl.process t = w → d.msg t ≠ none → t ∈ tasks

/-- Nothing that is in hand is left until the idle timeout. -/
def Prompt (cfg : QueueConfig) (d : Deployment) : DeploymentAction → Prop
  | .queue a => d.queue.Prompt cfg a
  | _ => True

end Deployment

/-! ## What the steps do -/

section Steps

variable {env : Env} {cfg : QueueConfig} {pl : Placement} {s s' : Sys} {a : Action}

/-- A task keeps the entry it has in hand or takes up, or puts it down. A task that is
idle takes an entry up with a claim or a recovery; every later phase of the same job
carries the entry along; and the phases without one are those of a task that has stopped
or has been acked. -/
theorem Effect.msg_cases {t : ℕ} (h : Effect env s a s') (ht : a.task = some t) :
    (s'.tasks t).phase.msg = none ∨
      (s'.tasks t).phase.msg = a.begins.or (s.tasks t).phase.msg := by
  cases h with
  | refused ha =>
      rcases ha with ⟨_, _, _, _, rfl⟩ | ⟨_, _, _, _, rfl⟩ | ⟨_, _, rfl⟩ <;> exact .inr rfl
  | delete => cases ht
  | start =>
      cases ht
      exact .inl (by simp [Sys.commit, Phase.msg])
  | retry =>
      cases ht
      exact .inl (by simp [Sys.commit, Phase.msg])
  | discard ha =>
      rcases ha with rfl | rfl | rfl <;> cases ht <;>
        exact .inr (by simp [Sys.park, Phase.msg, Action.begins])
  | discard_logged ha =>
      rcases ha with rfl | rfl <;> cases ht <;>
        exact .inr (by simp [Sys.commit, Phase.msg, Action.begins])
  | claim ha =>
      rcases ha with ⟨rfl, -⟩ | ⟨rfl, -⟩ <;> cases ht <;>
        exact .inr (by simp [Sys.commit, Phase.msg, Action.begins])
  | recover_raised =>
      cases ht
      exact .inl (by simp [Phase.msg])
  | recover =>
      cases ht
      exact .inr (by simp [Sys.commit, Phase.msg, Action.begins])
  | reclaim htask =>
      cases ht
      exact .inr (by simp [Sys.commit, Phase.msg, Action.begins, htask])
  | reclaim_discard htask =>
      cases ht
      exact .inr (by simp [Sys.park, Phase.msg, Action.begins, htask])
  | @stop a t₀ _ ht₀ =>
      rw [ht₀, Option.some.injEq] at ht
      exact .inl (by simp [Sys.park, Phase.msg, ht])
  | invoke htask =>
      cases ht
      exact .inr (by simp [Sys.park, Phase.msg, Action.begins, htask])
  | stale hphase =>
      cases ht
      exact .inr (by simp [Sys.park, Phase.msg, Action.begins, hphase])
  | complete hphase =>
      cases ht
      exact .inr (by simp [Sys.commit, Phase.msg, Action.begins, hphase])
  | publish htask =>
      cases ht
      exact .inr (by simp [Phase.msg, Action.begins, htask])
  | finish htask =>
      cases ht
      exact .inr (by simp [Phase.msg, Action.begins, htask])
  | finish_gone htask =>
      cases ht
      exact .inr (by simp [Phase.msg, Action.begins, htask])
  | flush htask =>
      cases ht
      exact .inr (by simp [Phase.msg, Action.begins, htask])
  | ack =>
      cases ht
      exact .inl (by simp [Sys.park, Phase.msg])
  | reply =>
      cases ht
      exact .inl (by simp [Sys.park, Phase.msg])

theorem Action.eq_ack (h : a.raises = false) : ∃ t, a = .ack t := by
  cases a with
  | ack t => exact ⟨t, rfl⟩
  | _ => cases h

/-- Unless it acks, a step only adds to the stream. -/
theorem Effect.stream_grows (h : Effect env s a s') (ha : a.raises = true) :
    ∃ new, s'.stream = s.stream ++ new ∧ ∀ entry ∈ new, entry.acked = false := by
  cases h with
  | @publish t e msg job owed sent events htask =>
      refine ⟨[{ job }], rfl, fun entry hentry => ?_⟩
      rw [List.mem_singleton.mp hentry]
  | ack => cases ha
  | _ => exact ⟨[], (List.append_nil _).symm, fun _ hentry => by cases hentry⟩

/-- An ack. -/
theorem Sys.ack_cases {t : ℕ} (h : s.step env (.ack t) = some s') :
    ∃ m, (s.tasks t).phase = .returning (some m) ∧ s'.stream = Sys.xack s.stream m ∧
      (s'.tasks t).phase = .idle := by
  obtain ⟨u, hu, rfl⟩ := Option.map_eq_some_iff.mp h
  simp only [Sys.act, Sys.ack] at hu
  split at hu
  · rename_i m htask
    cases hu
    exact ⟨m, by rw [htask], rfl, by simp [Sys.park]⟩
  · cases hu

theorem map_job_xack {stream : List StreamEntry} {m : ℕ} :
    (Sys.xack stream m).map StreamEntry.job = stream.map StreamEntry.job := by
  refine List.ext_getElem? fun i => ?_
  rw [Sys.xack, List.getElem?_map, List.getElem?_map, List.getElem?_modify]
  cases stream[i]? with
  | none => rfl
  | some entry => by_cases hm : m = i <;> simp [hm]

/-- A process dies with its tasks. -/
theorem run_crash {tasks : List ℕ} (h : run (Sys.step env) s (tasks.map .crash) = some s') :
    Reaches (Sys.step env) (fun _ _ => True) s s' ∧ s'.stream = s.stream ∧
      ∀ t, (s'.tasks t).phase.msg = if t ∈ tasks then none else (s.tasks t).phase.msg := by
  induction tasks generalizing s with
  | nil =>
      cases h
      exact ⟨.refl, rfl, fun t => by simp⟩
  | cons t₀ rest ih =>
      rw [List.map_cons, run_cons, Option.bind_eq_some_iff] at h
      obtain ⟨u, hu, h⟩ := h
      have hcrash : u.stream = s.stream ∧
          u.tasks = Function.update s.tasks t₀ { phase := .idle } := by
        obtain ⟨v, hv, rfl⟩ := Option.map_eq_some_iff.mp hu
        simp only [Sys.act, Sys.crash] at hv
        split at hv
        · cases hv
        · cases hv
          exact ⟨rfl, rfl⟩
      obtain ⟨hreach, hstream, hmsg⟩ := ih h
      refine ⟨.trans (.single (.crash t₀) trivial hu) hreach, hstream.trans hcrash.1,
        fun t => ?_⟩
      rw [hmsg, hcrash.2]
      by_cases ht : t = t₀
      · simp [ht, Phase.msg]
      · simp [ht]

/-- Publishing is nothing to the consumers. -/
theorem publish_all_spec (q : Queue Job) (entries : List StreamEntry) :
    (Deployment.publish_all q entries).consumers = q.consumers ∧
      (Deployment.publish_all q entries).returned = q.returned ∧
      (Deployment.publish_all q entries).group.stream
        = q.group.stream ++ entries.map StreamEntry.job := by
  induction entries generalizing q with
  | nil => exact ⟨rfl, rfl, (List.append_nil _).symm⟩
  | cons entry rest ih =>
      obtain ⟨hconsumers, hreturned, hstream⟩ := ih { q with group := q.group.add entry.job }
      refine ⟨hconsumers, hreturned, hstream.trans ?_⟩
      rw [List.map_cons]
      exact List.append_assoc ..

theorem publish_all_reaches {P : Queue Job → QueueAction Job → Prop}
    (hP : ∀ q a, (!a.is_elapse) = true → P q a) (q : Queue Job) (entries : List StreamEntry) :
    Reaches (Queue.step cfg) P q (Deployment.publish_all q entries) := by
  induction entries generalizing q with
  | nil => exact .refl
  | cons entry rest ih =>
      exact .trans (.single (.publish entry.job) (hP _ _ rfl) rfl) (ih _)

end Steps

/-- What the end of a call does: the entry is acked unless it raises, and the other calls
go on. For a task of a batch this is the removal of one entry from a list without
repetitions, so the others stay on offer. A recovery pass offers only its first entry:
when that call returns, the next one is on offer, and when it raises, the rest of the pass
is dropped. Other tasks of the same pass cannot have been on offer then, which is the
exception in the last part. -/
theorem call_ends_spec {pl : Placement} {q q' : Queue Job} {t m : ℕ} {raises : Bool}
    (h : Deployment.call_ends pl q t m raises = some q') (hoffer : Deployment.Offers pl q t m) :
    q'.group.stream = q.group.stream ∧
      q'.returned = (if raises then q.returned else q.returned ++ [m]) ∧
      ∀ t' m', Deployment.Offers pl q t' m' →
        (pl.process t' = pl.process t → pl.recovers t' = pl.recovers t → m' ≠ m) →
        Deployment.Offers pl q' t' m' := by
  unfold Deployment.call_ends at h
  cases hrec : pl.recovers t with
  -- a task of the batch
  | false =>
      rw [hrec, if_neg Bool.false_ne_true] at h
      have hbatch : m ∈ (q.consumers (pl.process t)).batch := by
        simpa [Deployment.Offers, hrec] using hoffer
      rw [Queue.task_ends, if_pos hbatch, Option.some.injEq] at h
      have hconsumers : q'.consumers = (q.hold (pl.process t)
          { q.consumers (pl.process t) with
            batch := (q.consumers (pl.process t)).batch.erase m }).consumers := by
        rw [← h]
        cases raises <;> rfl
      refine ⟨?_, ?_, fun t' m' hoffer' hne => ?_⟩
      · rw [← h]
        cases raises <;> rfl
      · rw [← h]
        cases raises <;> rfl
      · unfold Deployment.Offers at hoffer' ⊢
        rw [hconsumers]
        by_cases hp : pl.process t' = pl.process t
        · rw [hp, Queue.consumers_hold_self]
          rw [hp] at hoffer'
          split at hoffer'
          · rename_i hrec'
            rw [if_pos hrec']
            exact hoffer'
          · rename_i hrec'
            rw [if_neg hrec']
            exact (List.mem_erase_of_ne (hne hp (Bool.eq_false_of_not_eq_true hrec'))).mpr hoffer'
        · rwa [Queue.consumers_hold_of_ne hp]
  | true =>
      rw [hrec, if_pos rfl] at h
      have hhead : ((q.consumers (pl.process t)).claimed.map Prod.fst).head? = some m := by
        simpa [Deployment.Offers, hrec] using hoffer
      cases hclaimed : (q.consumers (pl.process t)).claimed with
      | nil =>
          rw [hclaimed] at hhead
          cases hhead
      | cons job rest =>
          rw [hclaimed, List.map_cons, List.head?_cons, Option.some.injEq] at hhead
          simp only [Queue.recover_next, hclaimed, Option.some.injEq] at h
          obtain ⟨claimed, hconsumers⟩ : ∃ claimed, q'.consumers = (q.hold (pl.process t)
              { q.consumers (pl.process t) with claimed }).consumers := by
            rw [← h]
            cases raises
            · exact ⟨rest, rfl⟩
            · exact ⟨[], rfl⟩
          refine ⟨?_, ?_, fun t' m' hoffer' hne => ?_⟩
          · rw [← h]
            cases raises <;> rfl
          · rw [← h, ← hhead]
            cases raises <;> rfl
          · unfold Deployment.Offers at hoffer' ⊢
            rw [hconsumers]
            by_cases hp : pl.process t' = pl.process t
            · rw [hp, Queue.consumers_hold_self]
              rw [hp] at hoffer'
              split at hoffer'
              · -- the head of the same pass is the entry that is done
                rename_i hrec'
                rw [hclaimed, List.map_cons, List.head?_cons, Option.some.injEq] at hoffer'
                exact absurd (hoffer'.symm.trans hhead) (hne hp hrec')
              · rename_i hrec'
                rw [if_neg hrec']
                exact hoffer'
            · rwa [Queue.consumers_hold_of_ne hp]

/-! ## The projections -/

section Projections

variable {env : Env} {cfg : QueueConfig} {pl : Placement} {d d' : Deployment}

theorem Deployment.step_engine {a : Action}
    (h : d.step env cfg pl (.engine a) = some d') :
    d.sys.step env a = some d'.sys ∧ d.follow pl a d'.sys = some d'.queue := by
  obtain ⟨s, hs, h⟩ := Option.bind_eq_some_iff.mp h
  obtain ⟨q, hq, rfl⟩ := Option.map_eq_some_iff.mp h
  exact ⟨hs, hq⟩

/-- The engine of a deployment is the engine. -/
theorem Deployment.sys_reaches {guard : Deployment → DeploymentAction → Prop}
    (hrun : Reaches (Deployment.step env cfg pl) guard d d') :
    Reaches (Sys.step env) (fun _ _ => True) d.sys d'.sys := by
  induction hrun with
  | refl => exact .refl
  | tail a _ _ hs ih =>
      cases a with
      | engine a => exact .tail a ih trivial (Deployment.step_engine hs).1
      | queue a =>
          obtain ⟨q, -, rfl⟩ := Option.map_eq_some_iff.mp hs
          exact ih
      | die w tasks =>
          obtain ⟨s, hcrash, rfl⟩ := Option.map_eq_some_iff.mp hs
          exact ih.trans (run_crash hcrash).1

/-- What `follow` does: a call ends, or none does. -/
theorem Deployment.follow_cases {a : Action} {s : Sys} {q : Queue Job} {t : ℕ}
    (h : d.follow pl a s = some q) (ht : a.task = some t) :
    (q = Deployment.publish_all d.queue (s.stream.drop d.sys.stream.length) ∧
      ∀ m, a.begins.or (d.msg t) = some m → (s.tasks t).phase.msg ≠ none) ∨
    ∃ m, a.begins.or (d.msg t) = some m ∧ (s.tasks t).phase.msg = none ∧
      Deployment.call_ends pl
        (Deployment.publish_all d.queue (s.stream.drop d.sys.stream.length)) t m a.raises
          = some q := by
  unfold Deployment.follow at h
  rw [ht] at h
  dsimp only at h
  split at h
  · rename_i m hbefore hafter
    exact .inr ⟨m, hbefore, hafter, h⟩
  · rename_i hnot
    exact .inl ⟨(Option.some.inj h).symm, fun m hbefore hafter => hnot m hbefore hafter⟩

theorem Deployment.call_ends_reaches {P : Queue Job → QueueAction Job → Prop}
    (hP : ∀ q a, (!a.is_elapse) = true → P q a) {q q' : Queue Job} {t m : ℕ} {raises : Bool}
    (h : Deployment.call_ends pl q t m raises = some q') : Reaches (Queue.step cfg) P q q' := by
  unfold Deployment.call_ends at h
  split at h
  · exact .single (.recover_next (pl.process t) raises) (hP _ _ rfl) h
  · exact .single (.task_ends (pl.process t) m raises) (hP _ _ rfl) h

/-- The queue of a deployment is the queue, under any condition on the passing of time
that the run meets. -/
theorem Deployment.queue_reaches {guard : Deployment → DeploymentAction → Prop}
    {P : Queue Job → QueueAction Job → Prop} (hP : ∀ q a, (!a.is_elapse) = true → P q a)
    (hguard : ∀ u a, guard u (.queue a) → P u.queue a)
    (hrun : Reaches (Deployment.step env cfg pl) guard d d') :
    Reaches (Queue.step cfg) P d.queue d'.queue := by
  induction hrun with
  | refl => exact .refl
  | @tail u v a _ hg hs ih =>
      cases a with
      | engine a =>
          obtain ⟨-, hfollow⟩ := Deployment.step_engine hs
          have hpublish := @publish_all_reaches cfg P hP u.queue
            (v.sys.stream.drop u.sys.stream.length)
          cases ht : a.task with
          | none =>
              unfold Deployment.follow at hfollow
              rw [ht] at hfollow
              exact Option.some.inj hfollow ▸ ih.trans hpublish
          | some t =>
              rcases Deployment.follow_cases hfollow ht with ⟨hq, -⟩ | ⟨m, -, -, hends⟩
              · exact hq ▸ ih.trans hpublish
              · exact (ih.trans hpublish).trans (Deployment.call_ends_reaches hP hends)
      | queue a =>
          obtain ⟨q, hq, rfl⟩ := Option.map_eq_some_iff.mp hs
          exact .tail a ih (hguard u a hg) hq
      | die w tasks =>
          obtain ⟨s, -, rfl⟩ := Option.map_eq_some_iff.mp hs
          exact .tail (.die w) ih (hP _ _ rfl) rfl

/-- So every entry is accounted for. -/
theorem Deployment.accounted {guard : Deployment → DeploymentAction → Prop}
    (hrun : Reaches (Deployment.step env cfg pl) guard {} d) : d.queue.Accounted :=
  delivered_accounted (@Deployment.queue_reaches env cfg pl {} d guard (fun _ _ => True)
    (fun _ _ _ => trivial) (fun _ _ _ => trivial) hrun)

end Projections

/-! ## What the two sides have to do with each other -/

/-- The stream is the same on both sides, the entries that have been acked are those
for which a call has returned, and the tasks of a loop work on different entries that
it has in hand. -/
structure Deployed (pl : Placement) (d : Deployment) : Prop where
  jobs : d.sys.stream.map StreamEntry.job = d.queue.group.stream
  acked : ∀ m entry, d.sys.stream[m]? = some entry →
    (entry.acked = true ↔ m ∈ d.queue.returned)
  held : ∀ t m, d.msg t = some m → Deployment.Offers pl d.queue t m
  apart : ∀ t t' m, t ≠ t' → pl.process t' = pl.process t → pl.recovers t' = pl.recovers t →
    d.msg t = some m → d.msg t' ≠ some m

section Deployed

variable {env : Env} {cfg : QueueConfig} {pl : Placement} {d d' : Deployment}

theorem Deployment.offers_congr {q q' : Queue Job} {t m : ℕ} (h : q'.consumers = q.consumers) :
    Deployment.Offers pl q' t m ↔ Deployment.Offers pl q t m := by
  unfold Deployment.Offers
  rw [h]

/-- What the workers see of a step. `ended` is the entry that is put down, if the step
ends a call: it was taken up before or by this very step, and the task has nothing in hand
after it. The stream grows by the jobs the engine has published, a call returns only with
an ack, and whatever is on offer to another task stays so. -/
theorem Deployment.follow_spec {a : Action} {s : Sys} {q : Queue Job}
    (hoffer : ∀ t m, a.task = some t → a.begins.or (d.msg t) = some m →
      Deployment.Offers pl d.queue t m)
    (h : d.follow pl a s = some q) :
    ∃ ended : Option ℕ,
      (∀ m, ended = some m → ∃ t, a.task = some t ∧ a.begins.or (d.msg t) = some m ∧
        (s.tasks t).phase.msg = none) ∧
      (∀ t m, a.task = some t → a.begins.or (d.msg t) = some m →
        (s.tasks t).phase.msg = none → ended = some m) ∧
      q.group.stream
        = d.queue.group.stream ++ (s.stream.drop d.sys.stream.length).map StreamEntry.job ∧
      q.returned = d.queue.returned ++ (if a.raises then [] else ended.toList) ∧
      ∀ t' m', Deployment.Offers pl d.queue t' m' →
        (∀ t, a.task = some t → pl.process t' = pl.process t → pl.recovers t' = pl.recovers t →
          ended ≠ some m') → Deployment.Offers pl q t' m' := by
  obtain ⟨hconsumers, hreturned, hstream⟩ :=
    publish_all_spec d.queue (s.stream.drop d.sys.stream.length)
  cases ht : a.task with
  | none =>
      unfold Deployment.follow at h
      rw [ht] at h
      obtain rfl := Option.some.inj h
      refine ⟨none, (fun _ h => by cases h), (fun _ _ h => by cases h), hstream, ?_,
        fun _ _ ho _ => (Deployment.offers_congr hconsumers).mpr ho⟩
      simp [hreturned]
  | some t =>
      -- the step ends no call, or the one of message `m`
      rcases Deployment.follow_cases h ht with ⟨rfl, hnone⟩ | ⟨m, hbefore, hafter, hends⟩
      · refine ⟨none, (fun _ h => by cases h), ?_, hstream, ?_,
          fun _ _ ho _ => (Deployment.offers_congr hconsumers).mpr ho⟩
        · rintro t' m ht' hbefore hafter
          cases ht'
          exact absurd hafter (hnone m hbefore)
        · simp [hreturned]
      · obtain ⟨hgroup, hret, hothers⟩ := call_ends_spec hends
          ((Deployment.offers_congr hconsumers).mpr (hoffer t m ht hbefore))
        refine ⟨some m, ?_, ?_, hgroup.trans hstream, ?_, ?_⟩
        · rintro m' hm'
          cases hm'
          exact ⟨t, rfl, hbefore, hafter⟩
        · rintro t' m' ht' hbefore' -
          cases ht'
          exact hbefore.symm.trans hbefore'
        · rw [hret, hreturned]
          cases a.raises <;> simp
        · intro t' m' ho hne
          refine hothers t' m' ((Deployment.offers_congr hconsumers).mpr ho) fun hp hr hm => ?_
          exact hne t rfl hp hr (congrArg some hm.symm)

/-- What a task has in hand or takes up is offered by its loop, and to it alone. -/
theorem Deployed.offered {a : Action} (h : Deployed pl d)
    (hallowed : d.Allowed pl (.engine a)) {t m : ℕ} (ht : a.task = some t)
    (hm : a.begins.or (d.msg t) = some m) :
    Deployment.Offers pl d.queue t m ∧ ∀ t', t' ≠ t → pl.process t' = pl.process t →
      pl.recovers t' = pl.recovers t → d.msg t' ≠ some m := by
  cases hbegins : a.begins with
  | some m₀ =>
      rw [hbegins, Option.some_or, Option.some.injEq] at hm
      subst hm
      obtain ⟨hoffer, hfree⟩ := hallowed t m₀ ht hbegins
      exact ⟨hoffer, fun t' _ => hfree t'⟩
  | none =>
      rw [hbegins, Option.none_or] at hm
      exact ⟨h.held t m hm, fun t' hne hp hr => h.apart t t' m (Ne.symm hne) hp hr hm⟩

/-- **A step of the engine.** The four parts of [`Deployed`] change only where the task
that moves takes an entry up or puts it down, and both have been settled elsewhere: what
it takes up was on offer to it alone ([`Deployed.offered`]), and what the workers see of
the step is [`Deployment.follow_spec`]. So the argument is about who the entries that are
on offer can belong to. An ack marks the entry of the task that had it in hand, and this
is the one entry for which a call returns in the same step. Any other step adds entries to
the stream and marks none. The offers of the other tasks stay, except for the entry that
is put down, and nobody else has that in hand. -/
theorem Deployed.engine {a : Action} (h : Deployed pl d) (htyped : d.sys.Typed env)
    (hacc : d.queue.Accounted) (hallowed : d.Allowed pl (.engine a))
    (hs : d.step env cfg pl (.engine a) = some d') : Deployed pl d' := by
  obtain ⟨hsys, hfollow⟩ := Deployment.step_engine hs
  obtain ⟨u, hact, hu⟩ := Option.map_eq_some_iff.mp hsys
  have heff := effect_of_act htyped hact
  have hmsg : ∀ t, d'.msg t = (u.tasks t).phase.msg := fun t => by
    unfold Deployment.msg
    rw [← hu]
  have hother : ∀ t, a.task ≠ some t → d'.msg t = d.msg t := fun t ht => by
    rw [hmsg, heff.tasks_of_ne ht]
    rfl
  have hself : ∀ t m, a.task = some t → d'.msg t = some m → a.begins.or (d.msg t) = some m := by
    intro t m ht hm
    rw [hmsg] at hm
    rcases heff.msg_cases ht with hnone | heq
    · rw [hnone] at hm
      cases hm
    · exact heq.symm.trans hm
  obtain ⟨ended, hended, hends, hstream, hreturned, hoffers⟩ :=
    Deployment.follow_spec (fun t m ht hm => (h.offered hallowed ht hm).1) hfollow
  have hlength : d.sys.stream.length = d.queue.group.stream.length := by
    rw [← h.jobs, List.length_map]
  have hu' : d'.sys.stream = u.stream := by rw [← hu]
  constructor
  · -- an ack marks an entry and adds none, any other step only adds
    rw [hstream, ← h.jobs, hu']
    cases hraises : a.raises with
    | true =>
        obtain ⟨new, hnew, -⟩ := heff.stream_grows hraises
        rw [hnew, List.drop_left, List.map_append]
    | false =>
        obtain ⟨t, rfl⟩ := Action.eq_ack hraises
        obtain ⟨m, -, hxack, -⟩ := Sys.ack_cases hsys
        rw [← hu', hxack, map_job_xack, List.drop_eq_nil_of_le (by simp [Sys.xack]), List.map_nil,
          List.append_nil]
  · -- a call returns with the ack of its entry and with no other step
    intro m entry hentry
    cases hraises : a.raises with
    | true =>
        rw [hraises, if_pos rfl, List.append_nil] at hreturned
        obtain ⟨new, hnew, hunacked⟩ := heff.stream_grows hraises
        rw [hu', hnew] at hentry
        rw [hreturned]
        by_cases hm : m < d.sys.stream.length
        · rw [List.getElem?_append_left hm] at hentry
          exact h.acked m entry hentry
        · -- nothing has returned for an entry that is new
          rw [List.getElem?_append_right (not_lt.mp hm)] at hentry
          rw [hunacked entry (List.mem_of_getElem? hentry)]
          refine iff_of_false Bool.false_ne_true fun hret => hm ?_
          rw [hlength]
          exact ((hacc.returned m).mp hret).1.trans_le d.queue.group.next_le
    | false =>
        obtain ⟨t, rfl⟩ := Action.eq_ack hraises
        obtain ⟨m₀, hphase, hxack, hidle⟩ := Sys.ack_cases hsys
        have hend := hends t m₀ rfl (by rw [Deployment.msg, hphase]; rfl) (by rw [hidle]; rfl)
        rw [hxack] at hentry
        obtain ⟨entry', hentry', rfl⟩ := getElem?_xack hentry
        rw [hreturned, hraises, hend, if_neg Bool.false_ne_true, List.mem_append,
          ← h.acked m entry' hentry', Option.toList_some, List.mem_singleton, Bool.or_eq_true,
          decide_eq_true_iff]
  · -- who still has an entry in hand has not put it down, and nobody else can have
    intro t m hm
    by_cases ht : a.task = some t
    · refine hoffers t m (h.offered hallowed ht (hself t m ht hm)).1 fun t₁ ht₁ _ _ hend => ?_
      obtain ⟨t₂, ht₂, -, hnone⟩ := hended m hend
      rw [ht, Option.some.injEq] at ht₂
      subst ht₂
      exact absurd (hm.symm.trans hnone) (by simp)
    · rw [hother t ht] at hm
      refine hoffers t m (h.held t m hm) fun t₁ ht₁ hp hr hend => ?_
      obtain ⟨t₂, ht₂, hbefore, -⟩ := hended m hend
      obtain rfl := Option.some.inj (ht₁.symm.trans ht₂)
      have hne : t ≠ t₁ := fun heq => ht (heq ▸ ht₁)
      exact (h.offered hallowed ht₁ hbefore).2 t hne hp hr hm
  · -- at most one of the two has moved, and what it takes up is in no other hand
    intro t t' m hne hp hr hm hm'
    by_cases ht : a.task = some t
    · have ht' : a.task ≠ some t' := fun ht' => hne (Option.some.inj (ht.symm.trans ht'))
      rw [hother t' ht'] at hm'
      exact (h.offered hallowed ht (hself t m ht hm)).2 t' (Ne.symm hne) hp hr hm'
    · rw [hother t ht] at hm
      by_cases ht' : a.task = some t'
      · exact (h.offered hallowed ht' (hself t' m ht' hm')).2 t hne hp.symm hr.symm hm
      · rw [hother t' ht'] at hm'
        exact h.apart t t' m hne hp hr hm hm'

/-- What is offered stays on offer if the batch only grows and a recovery pass that is
under way goes on. -/
theorem Deployment.offers_hold {q : Queue Job} {t m w : ℕ} {c : Consumer Job}
    (h : Deployment.Offers pl q t m) (hbatch : (q.consumers w).batch ⊆ c.batch)
    (hclaimed : (q.consumers w).claimed = [] ∨ c.claimed = (q.consumers w).claimed) :
    Deployment.Offers pl (q.hold w c) t m := by
  unfold Deployment.Offers at h ⊢
  by_cases hp : pl.process t = w
  · subst hp
    rw [Queue.consumers_hold_self]
    split at h
    · rename_i hrec
      rw [if_pos hrec]
      rcases hclaimed with hnone | hsame
      · rw [hnone] at h
        cases h
      · rwa [hsame]
    · rename_i hrec
      rw [if_neg hrec]
      exact hbatch h
  · rwa [Queue.consumers_hold_of_ne hp]

/-- A loop reads or claims, or time passes. -/
theorem Deployed.queue {a : QueueAction Job} (h : Deployed pl d)
    (hallowed : d.Allowed pl (.queue a)) (hs : d.step env cfg pl (.queue a) = some d') :
    Deployed pl d' := by
  obtain ⟨q, hq, rfl⟩ := Option.map_eq_some_iff.mp hs
  cases a with
  | read w =>
      simp only [Queue.step, Queue.read] at hq
      split at hq
      · rename_i hbatch
        cases hq
        refine ⟨h.jobs, h.acked, fun t m hm => ?_, h.apart⟩
        exact Deployment.offers_hold (h.held t m hm) (hbatch ▸ List.nil_subset _) (.inr rfl)
      · cases hq
  | claim_stale w =>
      simp only [Queue.step, Queue.claim_stale] at hq
      split at hq
      · rename_i hclaimed
        cases hq
        refine ⟨h.jobs, h.acked, fun t m hm => ?_, h.apart⟩
        exact Deployment.offers_hold (h.held t m hm) (fun _ hid => hid) (.inl hclaimed)
      · cases hq
  | elapse ms =>
      cases hq
      exact ⟨h.jobs, h.acked, h.held, h.apart⟩
  | publish _ => cases hallowed
  | task_ends _ _ _ => cases hallowed
  | recover_next _ _ => cases hallowed
  | die _ => cases hallowed

/-- A worker dies. -/
theorem Deployed.die {w : ℕ} {tasks : List ℕ} (h : Deployed pl d)
    (hallowed : d.Allowed pl (.die w tasks))
    (hs : d.step env cfg pl (.die w tasks) = some d') : Deployed pl d' := by
  obtain ⟨s, hcrash, rfl⟩ := Option.map_eq_some_iff.mp hs
  obtain ⟨-, hstream, hmsg⟩ := run_crash hcrash
  have hleft : ∀ t m, (s.tasks t).phase.msg = some m → d.msg t = some m ∧ pl.process t ≠ w := by
    intro t m hm
    rw [hmsg] at hm
    split at hm
    · cases hm
    · rename_i hmem
      have hm' : d.msg t = some m := hm
      exact ⟨hm', fun hp => hmem (hallowed.2 t hp (by rw [hm']; simp))⟩
  refine ⟨?_, ?_, fun t m hm => ?_, fun t t' m hne hp hr hm hm' => ?_⟩
  · rw [hstream]
    exact h.jobs
  · rw [hstream]
    exact h.acked
  · obtain ⟨hm, hp⟩ := hleft t m hm
    have hoffer := h.held t m hm
    unfold Deployment.Offers at hoffer ⊢
    dsimp only
    rwa [Queue.consumers_hold_of_ne hp]
  · exact h.apart t t' m hne hp hr (hleft t m hm).1 (hleft t' m hm').1

theorem deployed_init : Deployed pl {} where
  jobs := rfl
  acked _ _ h := by cases h
  held _ _ h := by cases h
  apart _ _ _ _ _ _ h := by cases h

theorem deployed_of_reaches
    (hrun : Reaches (Deployment.step env cfg pl) (Deployment.Allowed pl) {} d) :
    Deployed pl d := by
  induction hrun with
  | refl => exact deployed_init
  | @tail u v a hbefore hallowed hs ih =>
      cases a with
      | engine a =>
          exact ih.engine (typed_of_reaches (Deployment.sys_reaches hbefore))
            (Deployment.accounted hbefore) hallowed hs
      | queue a => exact ih.queue hallowed hs
      | die w tasks => exact ih.die hallowed hs

/-- What a loop offers is in its worker's hand. -/
theorem Deployment.mem_hand {q : Queue Job} {t m : ℕ} (h : Deployment.Offers pl q t m) :
    m ∈ (q.consumers (pl.process t)).hand := by
  unfold Deployment.Offers at h
  split at h
  · exact Consumer.mem_hand.mpr (.inr (List.mem_of_mem_head? h))
  · exact Consumer.mem_hand.mpr (.inl h)

/-- The two loops of a worker offer different entries. -/
theorem Deployment.not_both {q : Queue Job} {t t' m : ℕ}
    (hnodup : (q.consumers (pl.process t)).hand.Nodup) (hp : pl.process t' = pl.process t)
    (hr : pl.recovers t' ≠ pl.recovers t) (h : Deployment.Offers pl q t m)
    (h' : Deployment.Offers pl q t' m) : False := by
  obtain ⟨-, -, hdisjoint⟩ := List.nodup_append'.mp hnodup
  unfold Deployment.Offers at h h'
  rw [hp] at h'
  split at h
  · rename_i hrec
    rw [if_neg (fun hrec' => hr (hrec'.trans hrec.symm))] at h'
    exact hdisjoint h' (List.mem_of_mem_head? h)
  · rename_i hrec
    have hrec' : pl.recovers t' = true := by
      cases hrec' : pl.recovers t' with
      | true => rfl
      | false => exact absurd (hrec'.trans (Bool.eq_false_of_not_eq_true hrec).symm) hr
    rw [if_pos hrec'] at h'
    exact hdisjoint h (List.mem_of_mem_head? h')

end Deployed

/-! ## Every run -/

/-- Every task is a worker of its own. -/
def each_alone : Placement where
  process := id
  recovers _ := false

/-- No recovery and no death, and each task claims from its own batch. -/
def Deployment.plain (d : Deployment) : DeploymentAction → Bool
  | .engine (.claim t m) => decide (m ∈ (d.queue.consumers t).batch) && decide (d.msg t ≠ some m)
  | .engine (.recover ..) | .engine (.recover_claim ..) => false
  | .engine _ | .queue (.read _) => true
  | _ => false

theorem Deployment.allowed_of_plain {cfg : QueueConfig} {d : Deployment} {a : DeploymentAction}
    (h : d.plain a = true) : d.Allowed each_alone a ∧ d.Prompt cfg a := by
  cases a with
  | engine a =>
      cases a with
      | claim t m =>
          obtain ⟨hbatch, hmsg⟩ := Bool.and_eq_true_iff.mp h
          have hmem : m ∈ (d.queue.consumers t).batch := of_decide_eq_true hbatch
          refine ⟨?_, trivial⟩
          rintro t' m' ⟨⟩ ⟨⟩
          refine ⟨hmem, fun t' hp _ => ?_⟩
          obtain rfl : t' = t := hp
          exact of_decide_eq_true hmsg
      | recover => cases h
      | recover_claim => cases h
      | _ => exact ⟨(fun _ _ _ h => by cases h), trivial⟩
  | queue a =>
      cases a with
      | read w => exact ⟨trivial, trivial⟩
      | _ => cases h
  | die w tasks => cases h

/-- One entry at a time. -/
def one_by_one : QueueConfig := { minute_timeout with poll_count := 1 }

/-- Two executions, and two workers which have read and claimed one entry each. -/
def two_workers : List DeploymentAction :=
  [.engine (.start 0 0 none 0), .engine (.publish 0), .engine (.start 3 0 none 0),
    .engine (.publish 3), .queue (.read 1), .queue (.read 2), .engine (.claim 2 1),
    .engine (.claim 1 0)]

/-- **The engine and the workers agree on the stream.** In every run, whatever raises,
whoever dies and whatever the timing, both see the same jobs, and the entries that the
engine has acked are those that have been delivered and are not pending. That the engine's
mark and the workers' pending list agree takes two steps, one on each side. The engine
marks an entry exactly when its call returns, which is the field `acked` of [`Deployed`];
and an entry for which a call has returned is one that was delivered and is not pending,
which the queue knows by itself ([`delivered_accounted`]). -/
theorem streams_agree (env : Env) (cfg : QueueConfig) (pl : Placement) (d : Deployment)
    (hrun : Reaches (Deployment.step env cfg pl) (Deployment.Allowed pl) {} d) :
    d.sys.stream.map StreamEntry.job = d.queue.group.stream ∧
      ∀ m entry, d.sys.stream[m]? = some entry →
        (entry.acked = true ↔ m < d.queue.group.next ∧ ¬ d.queue.group.pending.Pending m) := by
  have hdep := deployed_of_reaches hrun
  refine ⟨hdep.jobs, fun m entry hentry => ?_⟩
  rw [hdep.acked m entry hentry, (Deployment.accounted hrun).returned]

/-- The second of the two is done with its entry. -/
theorem streams_agree_two : ∃ d : Deployment, (d.sys.stream.map StreamEntry.acked) = [false, true] ∧
    ¬ d.queue.group.pending.Pending 1 := by
  have hstream : (run (restrict (Deployment.step (env_of solo) one_by_one each_alone)
      fun d a => d.plain a) {} (two_workers ++ [.engine (.flush 2), .engine (.flush 2),
        .engine (.invoke 2), .engine (.complete 2 succeeded), .engine (.finish 2),
        .engine (.flush 2), .engine (.flush 2), .engine (.flush 2), .engine (.ack 2)])).map
          (fun d => d.sys.stream.map StreamEntry.acked) = some [false, true] := by decide +kernel
  obtain ⟨d, hd, hstream⟩ := Option.map_eq_some_iff.mp hstream
  have hrun : Reaches (Deployment.step (env_of solo) one_by_one each_alone)
      (Deployment.Allowed each_alone) {} d :=
    (reaches_of_run hd).mono fun _ _ h =>
      (@Deployment.allowed_of_plain one_by_one _ _ h).1
  obtain ⟨entry, hentry, hacked⟩ : ∃ entry, d.sys.stream[1]? = some entry ∧ entry.acked = true := by
    have hsecond := congrArg (·[1]?) hstream
    rw [List.getElem?_map] at hsecond
    exact Option.map_eq_some_iff.mp hsecond
  exact ⟨d, hstream, (((streams_agree (env_of solo) one_by_one each_alone d hrun).2 1 entry
    hentry).mp hacked).2⟩

/-- **One handler at a time.** As long as nothing that a loop has in hand is left until
the idle timeout, whatever raises and whoever dies, no two tasks of the engine work on one
entry of the stream, and none works on an entry that has been acked. A task has in hand
what its loop offers ([`Deployed`]), so two tasks with one entry belong to one process, by
the exclusion between processes ([`Queue.exclusive_of_reaches`]); there they belong to the
batch and to the recovery pass, whose entries differ, or to the same loop, which starts
one task for an entry. -/
theorem sole_handler (env : Env) (cfg : QueueConfig) (htimeout : 0 < cfg.idle_timeout_ms)
    (pl : Placement) (d : Deployment)
    (hrun : Reaches (Deployment.step env cfg pl) (fun u a => u.Allowed pl a ∧ u.Prompt cfg a)
      {} d) :
    (∀ t t' m, t ≠ t' → d.msg t = some m → d.msg t' ≠ some m) ∧
      ∀ t m, d.msg t = some m → ∃ entry, d.sys.stream[m]? = some entry ∧ entry.acked = false := by
  have hdep := deployed_of_reaches (hrun.mono fun _ _ => And.left)
  have hacc := Deployment.accounted hrun
  have hex := Queue.exclusive_of_reaches htimeout (Deployment.queue_reaches
    (fun _ _ => Queue.prompt_of_not_elapse) (fun _ _ => And.right) hrun)
  refine ⟨fun t t' m hne hm hm' => ?_, fun t m hm => ?_⟩
  · -- two processes never share an entry, and neither do the two loops of one
    by_cases hp : pl.process t' = pl.process t
    · by_cases hr : pl.recovers t' = pl.recovers t
      · exact hdep.apart t t' m hne hp hr hm hm'
      · exact Deployment.not_both (hex.nodup _) hp hr (hdep.held t m hm) (hdep.held t' m hm')
    · exact hex.disjoint _ _ hp m (Deployment.mem_hand (hdep.held t' m hm'))
        (Deployment.mem_hand (hdep.held t m hm))
  · -- what is in hand is pending, and what is acked is not
    have hpending := hex.pending _ m (Deployment.mem_hand (hdep.held t m hm))
    have hlt : m < d.sys.stream.length := by
      have := (StreamGroup.lt_of_pending hpending).trans_le d.queue.group.next_le
      rwa [← hdep.jobs, List.length_map] at this
    refine ⟨_, List.getElem?_eq_getElem hlt, Bool.eq_false_of_not_eq_true fun hacked => ?_⟩
    have hret := (hdep.acked m _ (List.getElem?_eq_getElem hlt)).mp hacked
    exact ((hacc.returned m).mp hret).2 hpending

theorem sole_handler_two : ∃ d : Deployment, d.msg 1 = some 0 ∧ d.msg 2 = some 1 ∧
    ∀ t, t ≠ 1 → d.msg t ≠ some 0 := by
  have hmsg : (run (restrict (Deployment.step (env_of solo) one_by_one each_alone)
      fun d a => d.plain a) {} two_workers).map (fun d => (d.msg 1, d.msg 2))
      = some (some 0, some 1) := by decide +kernel
  obtain ⟨d, hd, hmsg⟩ := Option.map_eq_some_iff.mp hmsg
  rw [Prod.mk.injEq] at hmsg
  have hrun : Reaches (Deployment.step (env_of solo) one_by_one each_alone)
      (fun u a => u.Allowed each_alone a ∧ u.Prompt one_by_one a) {} d :=
    (reaches_of_run hd).mono fun _ _ => Deployment.allowed_of_plain
  exact ⟨d, hmsg.1, hmsg.2, fun t ht => (sole_handler (env_of solo) one_by_one (by decide)
    each_alone d hrun).1 1 t 0 (Ne.symm ht) hmsg.1⟩

end EventFlow
