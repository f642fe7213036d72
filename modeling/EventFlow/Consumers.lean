/-
The workers on the job stream: `run_worker` and `run_recovery_loop` of any number
of processes over one consumer group.

A worker reads a batch of new entries and hands each to a task; a task ends with
the ack of its entry or with an exception, and the next batch is read when all have
ended. Beside it the recovery loop of the same process claims entries that have
been idle for long enough and works through them; an exception drops the rest of
its pass. A process may die at any moment, and whatever it had in hand stays
pending. What is done for a job is the subject of `Runtime.lean`; here a call
returns or raises.

[`delivered_accounted`] says of every run that an entry has been acked exactly if a
call for it has returned, so none is lost and none is skipped. A job may be handled
twice if its handling outlasts the idle timeout. [`handled_once`] says that this is
the only way: as long as everything that is in hand has been delivered less than
the timeout ago, no two calls are about one entry, and none returns twice.
By itself a worker does what the functions of `Recovery.lean` compute
([`turns_are_runs`]), and one worker is always enough to finish what is left
([`queue_drains`]).
-/
import EventFlow.Recovery
import EventFlow.Library.StreamGroup
import EventFlow.Library.Transition
import Mathlib.Logic.Function.Basic

set_option autoImplicit false

namespace EventFlow

open Transition

variable {φ : Type}

/-! ## The loops -/

/-- What the loops of a worker process have in hand. -/
structure Consumer (φ : Type) where
  /-- The tasks of the batch that have not ended. -/
  batch : List ℕ := []
  /-- What the recovery pass has claimed and not got through. -/
  claimed : List (ClaimedJob ℕ φ) := []

/-- The entries that a worker has in hand. -/
def Consumer.hand (c : Consumer φ) : List ℕ := c.batch ++ c.claimed.map Prod.fst

/-- The stream with the workers. `returned` is a history variable: the ids of the
calls that have returned, each of which was acked next. -/
structure Queue (φ : Type) where
  group : StreamGroup φ := StreamGroup.empty
  consumers : ℕ → Consumer φ := fun _ => {}
  returned : List ℕ := []

/-- The settings of the workers. -/
structure QueueConfig where
  consumer_name : ℕ → String
  poll_count : ℕ
  idle_timeout_ms : ℤ
  batch_size : ℕ

inductive QueueAction (φ : Type) where
  | publish (fields : φ)
  | elapse (ms : ℕ)
  /-- `XREADGROUP` by worker `w`. -/
  | read (w : ℕ)
  /-- A task of the batch ends. -/
  | task_ends (w id : ℕ) (raises : Bool)
  /-- `_claim_stale_pending` by worker `w`. -/
  | claim_stale (w : ℕ)
  /-- The recovery pass comes to its next job. -/
  | recover_next (w : ℕ) (raises : Bool)
  /-- The process dies. -/
  | die (w : ℕ)

namespace Queue

/-- Claiming hands entries over and leaves their ids. -/
theorem claim_stale_pending_ids (p : PendingList ℕ φ) (consumer_name : String)
    (idle_timeout_ms : ℤ) (batch_size : ℕ) :
    (claim_stale_pending p consumer_name idle_timeout_ms batch_size).2.entries.map
      PendingEntry.message_id = p.entries.map PendingEntry.message_id := by
  rw [claim_stale_pending_entries, List.map_map]
  exact List.map_congr_left fun e _ => PendingList.claimed_message_id ..

/-- A call has returned and its entry is acked. The two are one step: a process that dies
after the call and before its `XACK` counts as one whose call has not returned. -/
def finish (s : Queue φ) (id : ℕ) : Queue φ :=
  { s with group := s.group.ack id, returned := s.returned ++ [id] }

/-- The worker has something else in hand. -/
def hold (s : Queue φ) (w : ℕ) (c : Consumer φ) : Queue φ :=
  { s with consumers := Function.update s.consumers w c }

def read (cfg : QueueConfig) (s : Queue φ) (w : ℕ) : Option (Queue φ) :=
  -- the loop waits for all tasks of its batch
  if (s.consumers w).batch = [] then
    let response := s.group.read (cfg.consumer_name w) cfg.poll_count
    some ({ s with group := response.2 }.hold w
      { s.consumers w with batch := response.1.map Prod.fst })
  else none

def task_ends (s : Queue φ) (w id : ℕ) (raises : Bool) : Option (Queue φ) :=
  if id ∈ (s.consumers w).batch then
    let s := s.hold w { s.consumers w with batch := (s.consumers w).batch.erase id }
    some (if raises then s else s.finish id)
  else none

def claim_stale (cfg : QueueConfig) (s : Queue φ) (w : ℕ) : Option (Queue φ) :=
  if (s.consumers w).claimed = [] then
    let claimed := claim_stale_pending s.group.pending (cfg.consumer_name w) cfg.idle_timeout_ms
      cfg.batch_size
    some ({ s with group := s.group.with_pending claimed.2 (claim_stale_pending_ids ..) }.hold w
      { s.consumers w with claimed := claimed.1 })
  else none

/-- An exception leaves the loop over the claimed jobs. -/
def recover_next (s : Queue φ) (w : ℕ) (raises : Bool) : Option (Queue φ) :=
  match (s.consumers w).claimed with
  | [] => none
  | job :: rest =>
    some (if raises then s.hold w { s.consumers w with claimed := [] }
      else (s.hold w { s.consumers w with claimed := rest }).finish job.1)

def step (cfg : QueueConfig) (s : Queue φ) : QueueAction φ → Option (Queue φ)
  | .publish fields => some { s with group := s.group.add fields }
  | .elapse ms => some { s with group := s.group.elapse ms }
  | .read w => s.read cfg w
  | .task_ends w id raises => s.task_ends w id raises
  | .claim_stale w => s.claim_stale cfg w
  | .recover_next w raises => s.recover_next w raises
  | .die w => some (s.hold w {})

end Queue

/-! ## Who holds what -/

section Hold

variable {s : Queue φ} {w : ℕ} {c : Consumer φ}

@[simp] theorem Queue.consumers_hold_self : (s.hold w c).consumers w = c :=
  Function.update_self ..

theorem Queue.consumers_hold_of_ne {w' : ℕ} (h : w' ≠ w) :
    (s.hold w c).consumers w' = s.consumers w' := Function.update_of_ne h ..

/-- What holds of everything in hand holds after the worker has something else. -/
theorem Queue.forall_hold {P : ℕ → Prop} (hnew : ∀ id ∈ c.hand, P id)
    (h : ∀ w, ∀ id ∈ (s.consumers w).hand, P id) :
    ∀ w', ∀ id ∈ ((s.hold w c).consumers w').hand, P id := by
  intro w' id hid
  by_cases hw : w' = w
  · subst hw
    rw [consumers_hold_self] at hid
    exact hnew id hid
  · rw [consumers_hold_of_ne hw] at hid
    exact h w' id hid

theorem Consumer.mem_hand {id : ℕ} :
    id ∈ c.hand ↔ id ∈ c.batch ∨ id ∈ c.claimed.map Prod.fst := List.mem_append

/-- A task ends. -/
theorem Consumer.sublist_erase (c : Consumer φ) (id : ℕ) :
    ({ c with batch := c.batch.erase id } : Consumer φ).hand.Sublist c.hand :=
  List.erase_sublist.append (.refl _)

/-- A recovery pass is left. -/
theorem Consumer.sublist_nil (c : Consumer φ) :
    ({ c with claimed := [] } : Consumer φ).hand.Sublist c.hand :=
  (List.Sublist.refl _).append (List.nil_sublist _)

/-- A recovery pass goes on. -/
theorem Consumer.sublist_tail {job : ClaimedJob ℕ φ} {rest : List (ClaimedJob ℕ φ)}
    (h : c.claimed = job :: rest) :
    ({ c with claimed := rest } : Consumer φ).hand.Sublist c.hand := by
  unfold Consumer.hand
  rw [h, List.map_cons]
  exact (List.Sublist.refl _).append (List.sublist_cons_self _ _)

/-- The task that has ended is not in hand any more. -/
theorem Consumer.not_mem_erase {id : ℕ} (hnodup : c.hand.Nodup) (hmem : id ∈ c.batch) :
    id ∉ ({ c with batch := c.batch.erase id } : Consumer φ).hand := by
  obtain ⟨hbatch, -, hdisjoint⟩ := List.nodup_append'.mp hnodup
  intro hid
  rcases Consumer.mem_hand.mp hid with hid | hid
  · exact hbatch.not_mem_erase hid
  · exact hdisjoint hmem hid

/-- Nor is the job that the pass has got through. -/
theorem Consumer.not_mem_tail {job : ClaimedJob ℕ φ} {rest : List (ClaimedJob ℕ φ)}
    (hnodup : c.hand.Nodup) (h : c.claimed = job :: rest) :
    job.1 ∉ ({ c with claimed := rest } : Consumer φ).hand := by
  unfold Consumer.hand at hnodup
  rw [h, List.map_cons] at hnodup
  obtain ⟨-, htail, hdisjoint⟩ := List.nodup_append'.mp hnodup
  intro hid
  rcases Consumer.mem_hand.mp hid with hid | hid
  · exact hdisjoint hid List.mem_cons_self
  · exact (List.nodup_cons.mp htail).1 hid

theorem Consumer.mem_hand_head {job : ClaimedJob ℕ φ} {rest : List (ClaimedJob ℕ φ)}
    (h : c.claimed = job :: rest) : job.1 ∈ c.hand :=
  Consumer.mem_hand.mpr (.inr (by rw [h]; exact List.mem_cons_self))

end Hold

/-! ## Every entry is accounted for -/

/-- An entry has been acked exactly if a call for it has returned. -/
structure Queue.Accounted (s : Queue φ) : Prop where
  returned : ∀ id, id ∈ s.returned ↔ id < s.group.next ∧ ¬ s.group.pending.Pending id
  hand : ∀ w, ∀ id ∈ (s.consumers w).hand, id < s.group.next

section Accounted

variable {cfg : QueueConfig} {s s' : Queue φ}

theorem Queue.Accounted.hold {w : ℕ} {c : Consumer φ} (h : s.Accounted)
    (hnew : ∀ id ∈ c.hand, id < s.group.next) : (s.hold w c).Accounted :=
  ⟨h.returned, Queue.forall_hold hnew h.hand⟩

/-- A worker puts entries down. -/
theorem Queue.Accounted.put_down {w : ℕ} {c : Consumer φ} (h : s.Accounted)
    (hsub : c.hand.Sublist (s.consumers w).hand) : (s.hold w c).Accounted :=
  h.hold fun id hid => h.hand w id (hsub.subset hid)

theorem Queue.Accounted.finish {id : ℕ} (h : s.Accounted) (hid : id < s.group.next) :
    (s.finish id).Accounted := by
  refine ⟨fun m => ?_, h.hand⟩
  change m ∈ s.returned ++ [id] ↔ m < s.group.next ∧ ¬ (s.group.pending.ack id).Pending m
  rw [List.mem_append, h.returned, List.mem_singleton, PendingList.pending_ack]
  by_cases hm : m = id
  · subst hm
    exact iff_of_true (.inr rfl) ⟨hid, fun hp => hp.2 rfl⟩
  · simp only [hm, or_false, ne_eq, not_false_eq_true, and_true]

/-- The pending list is rewritten under the same ids. -/
theorem Queue.Accounted.of_pending {g : StreamGroup φ} (h : s.Accounted)
    (hnext : g.next = s.group.next)
    (hpending : ∀ id, g.pending.Pending id ↔ s.group.pending.Pending id) :
    ({ s with group := g } : Queue φ).Accounted :=
  ⟨fun id => by simp only [h.returned id, hnext, hpending id], fun w id hid => by
    simpa only [hnext] using h.hand w id hid⟩

theorem Queue.Accounted.read {w : ℕ} (h : s.Accounted) :
    ({ s with group := (s.group.read (cfg.consumer_name w) cfg.poll_count).2 } :
      Queue φ).Accounted := by
  have hle : s.group.next ≤ (s.group.read (cfg.consumer_name w) cfg.poll_count).2.next :=
    Nat.le_add_right _ _
  refine ⟨fun id => ?_, fun w' id hid => (h.hand w' id hid).trans_le hle⟩
  dsimp only
  rw [h.returned, StreamGroup.pending_read]
  constructor
  · rintro ⟨hlt, hnot⟩
    refine ⟨hlt.trans_le hle, ?_⟩
    rintro (hp | ⟨hge, -⟩)
    · exact hnot hp
    · exact absurd hlt (not_lt.mpr hge)
  · rintro ⟨hlt, hnot⟩
    rw [not_or] at hnot
    refine ⟨?_, hnot.1⟩
    by_contra hge
    exact hnot.2 ⟨not_lt.mp hge, hlt⟩

/-- What a recovery pass claims is pending. -/
theorem pending_of_claimed {p : PendingList ℕ φ} {consumer_name : String} {idle_timeout_ms : ℤ}
    {batch_size id : ℕ}
    (h : id ∈ (claim_stale_pending p consumer_name idle_timeout_ms batch_size).1.map Prod.fst) :
    ∃ e ∈ p.entries, e.message_id = id ∧ idle_timeout_ms ≤ e.idle := by
  rw [claim_stale_pending_jobs, List.map_map] at h
  obtain ⟨e, he, rfl⟩ := List.mem_map.mp h
  obtain ⟨htake, hstale⟩ := List.mem_filter.mp he
  exact ⟨e, List.mem_of_mem_take htake, rfl, of_decide_eq_true hstale⟩

/-- One step keeps the account. A read moves the position and makes pending what it
delivers; a claim changes owners and idle times; and the end of a call takes one entry out
of a hand, and out of the pending list exactly if the call has returned. -/
theorem Queue.Accounted.step {a : QueueAction φ} (h : s.Accounted)
    (hs : s.step cfg a = some s') : s'.Accounted := by
  cases a with
  | publish fields =>
      cases hs
      exact h.of_pending rfl fun _ => Iff.rfl
  | elapse ms =>
      cases hs
      exact h.of_pending rfl fun _ => StreamGroup.pending_elapse
  | read w =>
      simp only [Queue.step, Queue.read] at hs
      split at hs
      · cases hs
        refine h.read.hold fun id hid => ?_
        -- what it holds has just been read, or was in its hand before
        rcases Consumer.mem_hand.mp hid with hid | hid
        · obtain ⟨job, hjob, rfl⟩ := List.mem_map.mp hid
          obtain ⟨p, hp, rfl⟩ := List.mem_map.mp hjob
          exact (s.group.mem_unread hp).2
        · have hold := h.hand w id (Consumer.mem_hand.mpr (.inr hid))
          exact hold.trans_le (Nat.le_add_right _ _)
      · cases hs
  | task_ends w id raises =>
      simp only [Queue.step, Queue.task_ends] at hs
      split at hs
      · rename_i hmem
        have hrest := h.put_down (Consumer.sublist_erase (s.consumers w) id)
        cases hs
        split
        · exact hrest
        · exact hrest.finish (h.hand w id (Consumer.mem_hand.mpr (.inl hmem)))
      · cases hs
  | claim_stale w =>
      simp only [Queue.step, Queue.claim_stale] at hs
      split at hs
      · cases hs
        -- a claim changes owners and idle times, and not what is pending
        have hgroup := @Queue.Accounted.of_pending _ s (s.group.with_pending _
          (Queue.claim_stale_pending_ids s.group.pending (cfg.consumer_name w) cfg.idle_timeout_ms
            cfg.batch_size)) h rfl fun _ => StreamGroup.pending_with_pending _
        refine hgroup.hold fun id hid => ?_
        rcases Consumer.mem_hand.mp hid with hid | hid
        · exact h.hand w id (Consumer.mem_hand.mpr (.inl hid))
        · obtain ⟨e, he, rfl, -⟩ := pending_of_claimed hid
          exact s.group.pending_lt e he
      · cases hs
  | recover_next w raises =>
      simp only [Queue.step, Queue.recover_next] at hs
      split at hs
      · cases hs
      · rename_i job rest hclaimed
        cases hs
        split
        · exact h.put_down (Consumer.sublist_nil (s.consumers w))
        · exact (h.put_down (Consumer.sublist_tail hclaimed)).finish
            (h.hand w _ (Consumer.mem_hand_head hclaimed))
  | die w =>
      cases hs
      exact h.put_down (List.nil_sublist _)

theorem Queue.accounted_empty : ({} : Queue φ).Accounted :=
  ⟨fun id => by simp [StreamGroup.empty], fun w id hid => by cases hid⟩

/-- **No entry is lost and none is skipped.** In every run, with calls that raise,
processes that die and any timing, what has been delivered is pending until a call for it
has returned. Nothing is asked of the run: a death empties a hand and leaves the pending
list alone, and so do an exception and the passing of time. Only an ack removes an entry,
and it does so in the step in which the call returns. -/
theorem delivered_accounted {guard : Queue φ → QueueAction φ → Prop}
    (hrun : Reaches (Queue.step cfg) guard {} s) : s.Accounted :=
  hrun.invariant Queue.Accounted Queue.accounted_empty fun _ _ _ h _ hs => h.step hs

end Accounted

/-! ## Handled once -/

/-- Nothing that is in hand is left until the idle timeout. -/
def Queue.Prompt (cfg : QueueConfig) (s : Queue φ) : QueueAction φ → Prop
  | .elapse ms => ∀ w, ∀ id ∈ (s.consumers w).hand, ∀ e ∈ s.group.pending.entries,
      e.message_id = id → ((e.idle + ms : ℕ) : ℤ) < cfg.idle_timeout_ms
  | _ => True

/-- Whatever is in hand is pending and fresh, and in one hand only. -/
structure Queue.Exclusive (cfg : QueueConfig) (s : Queue φ) : Prop where
  nodup : ∀ w, (s.consumers w).hand.Nodup
  disjoint : ∀ w w', w ≠ w' → ∀ id ∈ (s.consumers w).hand, id ∉ (s.consumers w').hand
  pending : ∀ w, ∀ id ∈ (s.consumers w).hand, s.group.pending.Pending id
  fresh : ∀ w, ∀ id ∈ (s.consumers w).hand, ∀ e ∈ s.group.pending.entries, e.message_id = id →
    (e.idle : ℤ) < cfg.idle_timeout_ms
  returned : s.returned.Nodup

section Exclusive

variable {cfg : QueueConfig} {s s' : Queue φ} {w : ℕ}

/-- A worker takes entries that nobody has in hand, or puts some down. What it takes has
to be pending, fresh and in no hand, its own included; what it puts down is no concern. -/
theorem Queue.Exclusive.hold {c : Consumer φ} (h : s.Exclusive cfg) (hnodup : c.hand.Nodup)
    (hfree : ∀ id ∈ c.hand, id ∈ (s.consumers w).hand ∨
      (∀ w', id ∉ (s.consumers w').hand) ∧ s.group.pending.Pending id ∧
        ∀ e ∈ s.group.pending.entries, e.message_id = id → (e.idle : ℤ) < cfg.idle_timeout_ms) :
    (s.hold w c).Exclusive cfg where
  nodup w' := by
    by_cases hw : w' = w
    · rw [hw, consumers_hold_self]
      exact hnodup
    · rw [consumers_hold_of_ne hw]
      exact h.nodup w'
  disjoint w₁ w₂ hne id h₁ h₂ := by
    have apart : ∀ w', w' ≠ w → id ∈ c.hand → id ∉ (s.consumers w').hand := by
      intro w' hw hid
      rcases hfree id hid with hid | ⟨hid, -⟩
      · exact h.disjoint w w' hw.symm id hid
      · exact hid w'
    by_cases hw₁ : w₁ = w
    · have hw₂ : w₂ ≠ w := fun hw₂ => hne (hw₁.trans hw₂.symm)
      rw [hw₁, consumers_hold_self] at h₁
      rw [consumers_hold_of_ne hw₂] at h₂
      exact apart w₂ hw₂ h₁ h₂
    · rw [consumers_hold_of_ne hw₁] at h₁
      by_cases hw₂ : w₂ = w
      · rw [hw₂, consumers_hold_self] at h₂
        exact apart w₁ hw₁ h₂ h₁
      · rw [consumers_hold_of_ne hw₂] at h₂
        exact h.disjoint w₁ w₂ hne id h₁ h₂
  pending := Queue.forall_hold
    (fun id hid => (hfree id hid).elim (h.pending w id) (·.2.1)) h.pending
  fresh := Queue.forall_hold (fun id hid => (hfree id hid).elim (h.fresh w id) (·.2.2)) h.fresh
  returned := h.returned

/-- A worker puts entries down. -/
theorem Queue.Exclusive.put_down {c : Consumer φ} (h : s.Exclusive cfg)
    (hsub : c.hand.Sublist (s.consumers w).hand) : (s.hold w c).Exclusive cfg :=
  h.hold ((h.nodup w).sublist hsub) fun _ hid => .inl (hsub.subset hid)

/-- The group changes, but not what is in hand. -/
theorem Queue.Exclusive.of_group {g : StreamGroup φ} (h : s.Exclusive cfg)
    (hpending : ∀ id, s.group.pending.Pending id → g.pending.Pending id)
    (hidle : ∀ e ∈ g.pending.entries, (∃ w, e.message_id ∈ (s.consumers w).hand) →
      (e.idle : ℤ) < cfg.idle_timeout_ms) :
    ({ s with group := g } : Queue φ).Exclusive cfg where
  nodup := h.nodup
  disjoint := h.disjoint
  pending w id hid := hpending id (h.pending w id hid)
  fresh w _ hid e he heq := hidle e he ⟨w, heq ▸ hid⟩
  returned := h.returned

/-- A call returns for an entry that nobody has in hand any more. -/
theorem Queue.Exclusive.finish {id : ℕ} (h : s.Exclusive cfg) (hacc : s.Accounted)
    (hid : s.group.pending.Pending id) (hfree : ∀ w, id ∉ (s.consumers w).hand) :
    (s.finish id).Exclusive cfg where
  nodup := h.nodup
  disjoint := h.disjoint
  pending w m hm := by
    refine PendingList.pending_ack.mpr ⟨h.pending w m hm, ?_⟩
    rintro rfl
    exact hfree w hm
  fresh w m hm e he heq := h.fresh w m hm e (List.mem_filter.mp he).1 heq
  returned := by
    refine List.Nodup.append h.returned (List.nodup_singleton _) ?_
    intro m hm hm'
    rw [List.mem_singleton.mp hm'] at hm
    exact ((hacc.returned id).mp hm).2 hid

/-- An entry of the list after a claim. -/
theorem claimed_entry {p : PendingList ℕ φ} {consumer_name : String} {idle_timeout_ms : ℤ}
    {batch_size : ℕ} {e : PendingEntry ℕ φ}
    (he : e ∈ (claim_stale_pending p consumer_name idle_timeout_ms batch_size).2.entries) :
    (∃ e₀ ∈ p.entries, e₀.message_id = e.message_id ∧ e.idle ≤ e₀.idle) ∧
      (e.message_id ∈ (claim_stale_pending p consumer_name idle_timeout_ms batch_size).1.map
        Prod.fst → e.idle = 0) := by
  rw [claim_stale_pending_entries] at he
  obtain ⟨e₀, he₀, rfl⟩ := List.mem_map.mp he
  rw [claim_stale_pending_jobs, List.map_map, PendingList.claimed_message_id]
  refine ⟨⟨e₀, he₀, rfl, ?_⟩, fun hmem => ?_⟩
  · unfold PendingList.claimed
    split
    · exact Nat.zero_le _
    · exact le_rfl
  · obtain ⟨e₁, he₁, heq⟩ := List.mem_map.mp hmem
    obtain ⟨htake, hstale⟩ := List.mem_filter.mp he₁
    obtain rfl := PendingList.eq_of_message_id (List.mem_of_mem_take htake) he₀ heq
    unfold PendingList.claimed
    rw [if_pos ⟨List.mem_map_of_mem he₁, of_decide_eq_true hstale⟩]

/-- A call returns, and its entry leaves the hand. -/
theorem Queue.Exclusive.finish_held {c : Consumer φ} {id : ℕ} (h : s.Exclusive cfg)
    (hacc : s.Accounted) (hhand : id ∈ (s.consumers w).hand)
    (hsub : c.hand.Sublist (s.consumers w).hand) (hdone : id ∉ c.hand) :
    ((s.hold w c).finish id).Exclusive cfg := by
  refine (h.put_down hsub).finish (hacc.put_down hsub) (h.pending w id hhand) fun w' hw' => ?_
  by_cases hw : w' = w
  · rw [hw, consumers_hold_self] at hw'
    exact hdone hw'
  · rw [consumers_hold_of_ne hw] at hw'
    exact h.disjoint w w' (Ne.symm hw) id hhand hw'

/-- A read delivers what nobody has in hand: its ids are new. They lie at or behind the
position of the group, and whatever is in a hand has been delivered and so lies before it.
-/
theorem Queue.Exclusive.read (htimeout : 0 < cfg.idle_timeout_ms) (h : s.Exclusive cfg)
    (hs : s.read cfg w = some s') : s'.Exclusive cfg := by
  unfold Queue.read at hs
  split at hs
  · rename_i hbatch
    cases hs
    -- what is in a hand has been delivered, and a read goes on where delivery stopped
    have hlt : ∀ w', ∀ id ∈ (s.consumers w').hand, id < s.group.next :=
      fun w' id hid => StreamGroup.lt_of_pending (h.pending w' id hid)
    have hnew : ∀ id ∈ (s.group.read (cfg.consumer_name w) cfg.poll_count).1.map Prod.fst,
        s.group.next ≤ id ∧
          id < (s.group.read (cfg.consumer_name w) cfg.poll_count).2.next := by
      intro id hid
      obtain ⟨job, hjob, rfl⟩ := List.mem_map.mp hid
      obtain ⟨p, hp, rfl⟩ := List.mem_map.mp hjob
      exact s.group.mem_unread hp
    have hfresh : ∀ e ∈ (s.group.read (cfg.consumer_name w) cfg.poll_count).2.pending.entries,
        e ∈ s.group.pending.entries ∨ e.idle = 0 := by
      intro e he
      refine (List.mem_append.mp he).imp_right fun hnew => ?_
      obtain ⟨p, -, rfl⟩ := List.mem_map.mp hnew
      rfl
    have hgroup := h.of_group (fun _ hp => StreamGroup.pending_read.mpr (.inl hp))
      fun e he ⟨w', hw'⟩ => (hfresh e he).elim (fun hold => h.fresh w' _ hw' e hold rfl)
        fun hzero => by rw [hzero]; exact htimeout
    refine hgroup.hold ?_ fun id hid => ?_
    · refine List.Nodup.append ?_ ((h.nodup w).sublist (List.sublist_append_right _ _)) ?_
      · have hids : (s.group.read (cfg.consumer_name w) cfg.poll_count).1.map Prod.fst
            = (s.group.unread cfg.poll_count).map Prod.snd := List.map_map
        rw [hids, StreamGroup.unread_ids]
        exact List.nodup_range'
      · intro id hid hclaimed
        exact absurd (hlt w id (Consumer.mem_hand.mpr (.inr hclaimed)))
          (not_lt.mpr (hnew id hid).1)
    · rcases Consumer.mem_hand.mp hid with hid | hid
      · have hge := (hnew id hid).1
        refine .inr ⟨fun w' hw' => absurd (hlt w' id hw') (not_lt.mpr hge),
          StreamGroup.pending_read.mpr (.inr (hnew id hid)), fun e he heq => ?_⟩
        rcases hfresh e he with hold | hzero
        · exact absurd (s.group.pending_lt e hold) (heq ▸ not_lt.mpr hge)
        · rw [hzero]
          exact htimeout
      · exact .inl (Consumer.mem_hand.mpr (.inr hid))
  · cases hs

/-- A recovery pass claims what nobody has in hand: what is in hand is fresh. A claim
takes only what has been idle for the whole timeout. This is the one place where
promptness is used. -/
theorem Queue.Exclusive.claim_stale (htimeout : 0 < cfg.idle_timeout_ms) (h : s.Exclusive cfg)
    (hs : s.claim_stale cfg w = some s') : s'.Exclusive cfg := by
  unfold Queue.claim_stale at hs
  split at hs
  · rename_i hclaimed
    cases hs
    have hids := Queue.claim_stale_pending_ids s.group.pending (cfg.consumer_name w)
      cfg.idle_timeout_ms cfg.batch_size
    have hgroup := @Queue.Exclusive.of_group _ cfg s (s.group.with_pending _ hids) h
      (fun _ => (StreamGroup.pending_with_pending hids).mpr) (by
      rintro e he ⟨w', hw'⟩
      obtain ⟨⟨e₀, he₀, hid, hle⟩, -⟩ := claimed_entry he
      exact (Int.ofNat_le.mpr hle).trans_lt (h.fresh w' _ hw' e₀ he₀ hid))
    -- what is stale is in no hand, this worker's own included
    have hfree : ∀ id ∈ (claim_stale_pending s.group.pending (cfg.consumer_name w)
        cfg.idle_timeout_ms cfg.batch_size).1.map Prod.fst, ∀ w',
        id ∉ (s.consumers w').hand := by
      intro id hid w' hw'
      obtain ⟨e, he, heq, hstale⟩ := pending_of_claimed hid
      exact absurd (h.fresh w' id hw' e he heq) (not_lt.mpr hstale)
    refine hgroup.hold ?_ fun id hid => ?_
    · refine List.Nodup.append ((h.nodup w).sublist (List.sublist_append_left _ _))
        (claim_stale_pending_pending ..).1 fun id hbatch hid => ?_
      exact hfree id hid w (Consumer.mem_hand.mpr (.inl hbatch))
    · rcases Consumer.mem_hand.mp hid with hid | hid
      · exact .inl (Consumer.mem_hand.mpr (.inl hid))
      · obtain ⟨e, he, heq, -⟩ := pending_of_claimed hid
        refine .inr ⟨hfree id hid, (StreamGroup.pending_with_pending hids).mpr ⟨e, he, heq⟩,
          fun e' he' heq' => ?_⟩
        rw [(claimed_entry he').2 (heq' ▸ hid)]
        exact htimeout
  · cases hs

/-- One step keeps the hands apart. Taking up is by a read or by a claim, which have a
lemma each; every other step puts entries down or lets time pass, and promptness says how
much. -/
theorem Queue.Exclusive.step {a : QueueAction φ} (htimeout : 0 < cfg.idle_timeout_ms)
    (h : s.Exclusive cfg) (hacc : s.Accounted) (hprompt : s.Prompt cfg a)
    (hs : s.step cfg a = some s') : s'.Exclusive cfg := by
  cases a with
  | publish fields =>
      cases hs
      exact h.of_group (fun _ hp => hp) fun e he ⟨w, hw⟩ => h.fresh w _ hw e he rfl
  | elapse ms =>
      cases hs
      refine h.of_group (fun _ => StreamGroup.pending_elapse.mpr) ?_
      rintro e he ⟨w, hw⟩
      obtain ⟨e₀, he₀, rfl⟩ := List.mem_map.mp he
      exact hprompt w _ hw e₀ he₀ rfl
  | read w => exact h.read htimeout hs
  | task_ends w id raises =>
      simp only [Queue.step, Queue.task_ends] at hs
      split at hs
      · rename_i hmem
        cases hs
        have hsub := Consumer.sublist_erase (s.consumers w) id
        split
        · exact h.put_down hsub
        · exact h.finish_held hacc (Consumer.mem_hand.mpr (.inl hmem)) hsub
            (Consumer.not_mem_erase (h.nodup w) hmem)
      · cases hs
  | claim_stale w => exact h.claim_stale htimeout hs
  | recover_next w raises =>
      simp only [Queue.step, Queue.recover_next] at hs
      split at hs
      · cases hs
      · rename_i job rest hclaimed
        cases hs
        split
        · exact h.put_down (Consumer.sublist_nil (s.consumers w))
        · exact h.finish_held hacc (Consumer.mem_hand_head hclaimed)
            (Consumer.sublist_tail hclaimed) (Consumer.not_mem_tail (h.nodup w) hclaimed)
  | die w =>
      cases hs
      exact h.put_down (List.nil_sublist _)

theorem Queue.exclusive_empty (cfg : QueueConfig) : ({} : Queue φ).Exclusive cfg where
  nodup _ := .nil
  disjoint _ _ _ _ h := by cases h
  pending _ _ h := by cases h
  fresh _ _ h := by cases h
  returned := .nil

theorem Queue.exclusive_of_reaches (htimeout : 0 < cfg.idle_timeout_ms)
    (hrun : Reaches (Queue.step cfg) (Queue.Prompt cfg) {} s) : s.Exclusive cfg := by
  have hinv : s.Exclusive cfg ∧ s.Accounted := by
    exact hrun.invariant (fun u => u.Exclusive cfg ∧ u.Accounted)
      ⟨Queue.exclusive_empty cfg, Queue.accounted_empty⟩ fun u a v hu hprompt hs =>
        ⟨hu.1.step htimeout hu.2 hprompt hs, hu.2.step hs⟩
  exact hinv.1

end Exclusive

/-- **A job that is handled promptly is handled once.** In every run in which nothing that
is in hand is left until the idle timeout, whatever raises and whoever dies, no entry is
in two hands, no call returns for an entry for which one has returned, and the entries for
which a call has returned are those that were delivered and are not pending. The return of
a call and its `XACK` are one step here: a process that dies between the two counts as one
in which the call has not returned.

The invariant behind it is [`Queue.Exclusive`]: what is in a hand is pending, has been
idle for less than the timeout, and is in no other hand. A claim takes only what is stale,
so nothing that anybody has in hand; and since a return removes the entry from the pending
list, nothing that has returned is ever taken up again. -/
theorem handled_once (cfg : QueueConfig) (htimeout : 0 < cfg.idle_timeout_ms) (s : Queue φ)
    (hrun : Reaches (Queue.step cfg) (Queue.Prompt cfg) {} s) :
    (∀ w, (s.consumers w).hand.Nodup) ∧
      (∀ w w', w ≠ w' → ∀ id ∈ (s.consumers w).hand, id ∉ (s.consumers w').hand) ∧
      s.returned.Nodup ∧
      ∀ id, id ∈ s.returned ↔ id < s.group.next ∧ ¬ s.group.pending.Pending id := by
  have hacc := delivered_accounted hrun
  have hex := Queue.exclusive_of_reaches htimeout hrun
  exact ⟨hex.nodup, hex.disjoint, hex.returned, hacc.returned⟩

/-- Workers with a timeout of a minute. -/
def minute_timeout : QueueConfig where
  consumer_name := toString
  poll_count := 10
  idle_timeout_ms := 60000
  batch_size := 10

/-- Whether time passes. -/
def QueueAction.is_elapse : QueueAction φ → Bool
  | .elapse _ => true
  | _ => false

theorem Queue.prompt_of_not_elapse {cfg : QueueConfig} {s : Queue φ} {a : QueueAction φ}
    (h : (!a.is_elapse) = true) : s.Prompt cfg a := by
  cases a with
  | elapse ms => cases h
  | _ => trivial

/-- A worker dies with a job in hand. After a minute another one recovers it. -/
theorem handled_once_recovered :
    ∃ s : Queue Unit, s.returned = [0] ∧ s.returned.Nodup := by
  obtain ⟨s₁, s₂, s₃, hs₁, hhand, hs₂, hs₃, hreturned⟩ : ∃ s₁ s₂ s₃ : Queue Unit,
      run (restrict (Queue.step minute_timeout) fun _ a => !a.is_elapse) {}
        [.publish (), .read 0, .die 0] = some s₁ ∧
      (∀ w, (s₁.consumers w).hand = []) ∧ s₁.step minute_timeout (.elapse 60000) = some s₂ ∧
      run (restrict (Queue.step minute_timeout) fun _ a => !a.is_elapse) s₂
        [.claim_stale 1, .recover_next 1 false] = some s₃ ∧ s₃.returned = [0] := by
    refine ⟨_, _, _, rfl, fun w => ?_, rfl, rfl, rfl⟩
    by_cases hw : w = 0
    · subst hw
      rfl
    · exact congrArg Consumer.hand
        ((Queue.consumers_hold_of_ne hw).trans (Queue.consumers_hold_of_ne hw))
  have hprompt : s₁.Prompt minute_timeout (.elapse 60000) := by
    intro w id hid
    rw [hhand] at hid
    cases hid
  have hfirst : Reaches (Queue.step minute_timeout) (Queue.Prompt minute_timeout) {} s₁ :=
    (reaches_of_run hs₁).mono fun _ _ => Queue.prompt_of_not_elapse
  have hlast : Reaches (Queue.step minute_timeout) (Queue.Prompt minute_timeout) s₂ s₃ :=
    (reaches_of_run hs₃).mono fun _ _ => Queue.prompt_of_not_elapse
  have hrun : Reaches (Queue.step minute_timeout) (Queue.Prompt minute_timeout) {} s₃ :=
    (hfirst.tail _ hprompt hs₂).trans hlast
  exact ⟨s₃, hreturned, (handled_once minute_timeout (by decide) s₃ hrun).2.2.1⟩

/-- **A slow job is handled twice.** Its worker is at it for longer than the
timeout, another one claims it, and both calls return. -/
theorem slow_job_handled_twice :
    ∃ s : Queue Unit, Reaches (Queue.step minute_timeout) (fun _ _ => True) {} s ∧
      s.returned = [0, 0] := by
  have hreturned : (run (restrict (Queue.step minute_timeout) fun _ _ => true) ({} : Queue Unit)
      [.publish (), .read 0, .elapse 60000, .claim_stale 1, .recover_next 1 false,
        .task_ends 0 0 false]).map Queue.returned = some [0, 0] := by decide
  obtain ⟨s, hs, hreturned⟩ := Option.map_eq_some_iff.mp hreturned
  exact ⟨s, (reaches_of_run hs).mono fun _ _ _ => trivial, hreturned⟩

/-! ## The loops by themselves -/

section Loops

variable {σ : Type} {cfg : QueueConfig} {s : Queue φ} {w : ℕ}

/-- A task of the batch ends. -/
theorem Queue.exists_ended {id : ℕ} {ids : List ℕ} (raises : Bool)
    (hbatch : (id :: ids).Perm (s.consumers w).batch) :
    ∃ s', s.step cfg (.task_ends w id raises) = some s' ∧
      s'.group = (if raises then s.group else s.group.ack id) ∧
      ids.Perm (s'.consumers w).batch ∧ (s'.consumers w).claimed = (s.consumers w).claimed := by
  have hmem : id ∈ (s.consumers w).batch := hbatch.subset List.mem_cons_self
  have herase : ids.Perm ((s.consumers w).batch.erase id) := by
    have := hbatch.erase id
    rwa [List.erase_cons_head] at this
  refine ⟨_, if_pos hmem, ?_, ?_, ?_⟩
  · cases raises <;> rfl
  · cases raises <;> simpa [Queue.finish] using herase
  · cases raises <;> simp [Queue.finish]

/-- The recovery pass comes to its next job. -/
theorem Queue.exists_next {job : ClaimedJob ℕ φ} {rest : List (ClaimedJob ℕ φ)}
    (raises : Bool) (hclaimed : (s.consumers w).claimed = job :: rest) :
    ∃ s', s.step cfg (.recover_next w raises) = some s' ∧
      s'.group = (if raises then s.group else s.group.ack job.1) ∧
      (s'.consumers w).claimed = (if raises then [] else rest) ∧
      (s'.consumers w).batch = (s.consumers w).batch := by
  cases raises with
  | false =>
      refine ⟨(s.hold w { s.consumers w with claimed := rest }).finish job.1, ?_, rfl, ?_, ?_⟩
      · simp only [Queue.step, Queue.recover_next, hclaimed, Bool.false_eq_true, if_false]
      · simp [Queue.finish]
      · simp [Queue.finish]
  | true =>
      refine ⟨s.hold w { s.consumers w with claimed := [] }, ?_, rfl, ?_, ?_⟩
      · simp only [Queue.step, Queue.recover_next, hclaimed, if_true]
      · simp
      · simp

/-- **A batch by itself** is a run, in whatever order its tasks end. By induction on the
tasks in the order in which they end. Each end is one step of the system and one turn of
the loop of `worker_batch`, and both leave the same pending list. -/
theorem worker_batch_runs (process : ClaimedJob ℕ φ → σ → σ) (raises : ℕ → Bool)
    (jobs : List (ClaimedJob ℕ φ)) (l : LoopState σ ℕ φ) (hpending : l.pending = s.group.pending)
    (hbatch : (jobs.map Prod.fst).Perm (s.consumers w).batch) :
    ∃ s', Reaches (Queue.step cfg) (fun _ a => ∃ job ∈ jobs, a = .task_ends w job.1 (raises job.1))
        s s' ∧
      s'.group.pending = (worker_batch process raises jobs l).pending ∧
      (s'.consumers w).batch = [] ∧ (s'.consumers w).claimed = (s.consumers w).claimed := by
  induction jobs generalizing l s with
  | nil => exact ⟨s, .refl, hpending.symm, hbatch.symm.eq_nil, rfl⟩
  | cons job rest ih =>
      obtain ⟨s₁, hs₁, hgroup, hbatch₁, hclaimed₁⟩ :=
        @Queue.exists_ended φ cfg s w _ _ (raises job.1) hbatch
      obtain ⟨l₁, hl₁, hrest⟩ : ∃ l₁ : LoopState σ ℕ φ, l₁.pending = s₁.group.pending ∧
          worker_batch process raises (job :: rest) l = worker_batch process raises rest l₁ := by
        rw [hgroup, worker_batch]
        split
        · exact ⟨l.call process job, hpending, rfl⟩
        · exact ⟨(l.call process job).xack job.1,
            congrArg (PendingList.ack · job.1) hpending, rfl⟩
      obtain ⟨s', hreach, hpending', hempty, hclaimed'⟩ := ih l₁ hl₁ hbatch₁
      rw [hrest]
      refine ⟨s', .trans (.single (.task_ends w job.1 (raises job.1))
        ⟨job, List.mem_cons_self, rfl⟩ hs₁) (hreach.mono ?_), hpending', hempty,
        hclaimed'.trans hclaimed₁⟩
      rintro _ _ ⟨other, hother, ha⟩
      exact ⟨other, List.mem_cons_of_mem _ hother, ha⟩

/-- **A recovery pass by itself** is a run. By induction on the jobs that are left. Where
a job raises, the system drops the rest of the pass in one step, and so does the loop. -/
theorem recovery_pass_runs (process : ClaimedJob ℕ φ → σ → σ) (raises : ℕ → Bool)
    (jobs : List (ClaimedJob ℕ φ)) (l : LoopState σ ℕ φ) (hpending : l.pending = s.group.pending)
    (hclaimed : (s.consumers w).claimed = jobs) :
    ∃ s', Reaches (Queue.step cfg) (fun _ a => ∃ job ∈ jobs, a = .recover_next w (raises job.1))
        s s' ∧
      s'.group.pending = (recovery_pass process raises jobs l).pending ∧
      (s'.consumers w).claimed = [] ∧ (s'.consumers w).batch = (s.consumers w).batch := by
  induction jobs generalizing l s with
  | nil => exact ⟨s, .refl, hpending.symm, hclaimed, rfl⟩
  | cons job rest ih =>
      obtain ⟨s₁, hs₁, hgroup, hclaimed₁, hbatch₁⟩ :=
        @Queue.exists_next φ cfg s w _ _ (raises job.1) hclaimed
      have hfirst : Reaches (Queue.step cfg)
          (fun _ a => ∃ other ∈ job :: rest, a = .recover_next w (raises other.1)) s s₁ :=
        .single (.recover_next w (raises job.1)) ⟨job, List.mem_cons_self, rfl⟩ hs₁
      rw [recovery_pass]
      split
      · -- the pass is left
        rename_i hraises
        rw [if_pos hraises] at hgroup hclaimed₁
        exact ⟨s₁, hfirst, by rw [hgroup]; exact hpending.symm, hclaimed₁, hbatch₁⟩
      · rename_i hraises
        rw [if_neg hraises] at hgroup hclaimed₁
        obtain ⟨s', hreach, hpending', hempty, hbatch'⟩ := ih ((l.call process job).xack job.1)
          (by rw [hgroup]; exact congrArg (PendingList.ack · job.1) hpending) hclaimed₁
        refine ⟨s', hfirst.trans (hreach.mono ?_), hpending', hempty, hbatch'.trans hbatch₁⟩
        rintro _ _ ⟨other, hother, ha⟩
        exact ⟨other, List.mem_cons_of_mem _ hother, ha⟩

/-- **What a turn does by itself.** As long as nobody interferes, the batch of a worker
and a turn of its recovery loop leave the pending list as `worker_batch` and
`recovery_pass` say. The sequential functions are those of `Recovery.lean`, so what is
said of them there is said of these runs. Nothing is asked of the state that is started
from, and the calls may raise as they like. -/
theorem turns_are_runs (cfg : QueueConfig) (process : ClaimedJob ℕ φ → σ → σ)
    (raises : ℕ → Bool) (db : σ) (s : Queue φ) (w : ℕ) :
    (∀ jobs : List (ClaimedJob ℕ φ), (jobs.map Prod.fst).Perm (s.consumers w).batch →
      ∃ s', Reaches (Queue.step cfg)
          (fun _ a => ∃ job ∈ jobs, a = .task_ends w job.1 (raises job.1)) s s' ∧
        s'.group.pending
          = (worker_batch process raises jobs { db, pending := s.group.pending }).pending ∧
        (s'.consumers w).batch = []) ∧
    ((s.consumers w).claimed = [] → ∀ jobs p,
      claim_stale_pending s.group.pending (cfg.consumer_name w) cfg.idle_timeout_ms cfg.batch_size
          = (jobs, p) →
      ∃ s', Reaches (Queue.step cfg) (fun _ a => a = .claim_stale w ∨
            ∃ job ∈ jobs, a = .recover_next w (raises job.1)) s s' ∧
        s'.group.pending = (recovery_pass process raises jobs { db, pending := p }).pending ∧
        (s'.consumers w).claimed = []) := by
  refine ⟨fun jobs hbatch => ?_, fun hclaimed jobs p hclaim => ?_⟩
  · obtain ⟨s', hreach, hpending, hempty, -⟩ :=
      @worker_batch_runs φ σ cfg s w process raises jobs { db, pending := s.group.pending } rfl
        hbatch
    exact ⟨s', hreach, hpending, hempty⟩
  · obtain ⟨s₁, hs₁, hpending₁, hclaimed₁⟩ : ∃ s₁, s.step cfg (.claim_stale w) = some s₁ ∧
        s₁.group.pending = p ∧ (s₁.consumers w).claimed = jobs := by
      refine ⟨_, if_pos hclaimed, congrArg Prod.snd hclaim, ?_⟩
      rw [Queue.consumers_hold_self]
      exact congrArg Prod.fst hclaim
    obtain ⟨s', hreach, hpending, hempty, -⟩ :=
      @recovery_pass_runs φ σ cfg s₁ w process raises jobs { db, pending := p } hpending₁.symm
        hclaimed₁
    exact ⟨s', .trans (.single (.claim_stale w) (.inl rfl) hs₁) (hreach.mono fun _ _ => .inr),
      hpending, hempty⟩

/-- The second of two tasks raises. -/
theorem turns_are_runs_raised :
    ∃ s s' : Queue Unit, (s.consumers 0).batch = [0, 1] ∧ (s'.consumers 0).batch = [] ∧
      s'.group.pending.entries.map PendingEntry.message_id = [1] := by
  obtain ⟨s, hs, hbatch⟩ : ∃ s : Queue Unit,
      run (Queue.step minute_timeout) {} [.publish (), .publish (), .read 0] = some s ∧
        (s.consumers 0).batch = [0, 1] := ⟨_, rfl, rfl⟩
  obtain ⟨s', -, hpending, hempty⟩ :=
    (turns_are_runs minute_timeout (fun _ db => db) (fun id => id == 1) () s 0).1
      [(0, (), none), (1, (), none)] (by rw [hbatch]; decide)
  refine ⟨s, s', hbatch, hempty, ?_⟩
  rw [hpending]
  cases hs
  rfl

end Loops

/-! ## Nothing is stuck -/

/-- Worker `w` goes on by itself, and its calls return. -/
def QueueAction.alone (w : ℕ) : QueueAction φ → Prop
  | .publish _ => False
  | .elapse _ => True
  | .read v => v = w
  | .task_ends v _ raises => v = w ∧ raises = false
  | .claim_stale v => v = w
  | .recover_next v raises => v = w ∧ raises = false
  | .die _ => False

/-- How much is left to do. -/
def Queue.left (s : Queue φ) : ℕ :=
  2 * (s.group.stream.length - s.group.next) + s.group.pending.entries.length

section Drain

variable {cfg : QueueConfig} {s : Queue φ} {w : ℕ}

/-- An ack leaves no more to do. -/
theorem Queue.left_ack {s' : Queue φ} {id : ℕ} (h : s'.group = s.group.ack id) :
    s'.left ≤ s.left := by
  unfold Queue.left
  rw [h]
  exact Nat.add_le_add_left (List.length_filter_le _ _) _

/-- The worker gets through what it has in hand. By induction on how much it has in hand:
there is always a next call to end, of its batch or of its pass, and each leaves less. -/
theorem Queue.exists_empty_handed (cfg : QueueConfig) (s : Queue φ) (w : ℕ) :
    ∃ s', Reaches (Queue.step cfg) (fun _ a => a.alone w) s s' ∧ (s'.consumers w).batch = [] ∧
      (s'.consumers w).claimed = [] ∧ s'.group.stream = s.group.stream ∧
      s'.group.next = s.group.next ∧ s'.left ≤ s.left := by
  induction hn : (s.consumers w).hand.length using Nat.strongRecOn generalizing s with
  | ind n ih =>
      -- after one more call
      have next : ∀ {a : QueueAction φ} {s₁ : Queue φ} {id : ℕ}, a.alone w →
          s.step cfg a = some s₁ → s₁.group = s.group.ack id →
          (s₁.consumers w).hand.length < n →
          ∃ s', Reaches (Queue.step cfg) (fun _ a => a.alone w) s s' ∧
            (s'.consumers w).batch = [] ∧ (s'.consumers w).claimed = [] ∧
            s'.group.stream = s.group.stream ∧ s'.group.next = s.group.next ∧
            s'.left ≤ s.left := by
        intro a s₁ id ha hs hgroup hlt
        obtain ⟨s', hreach, hbatch, hclaimed, hstream, hnext, hleft⟩ := ih _ hlt _ rfl
        refine ⟨s', .trans (.single a ha hs) hreach, hbatch, hclaimed, ?_, ?_,
          hleft.trans (Queue.left_ack hgroup)⟩
        · rw [hstream, hgroup]
          rfl
        · rw [hnext, hgroup]
          rfl
      cases hbatch : (s.consumers w).batch with
      | cons id rest =>
          obtain ⟨s₁, hs₁, hgroup, hrest, hclaimed⟩ :=
            @Queue.exists_ended φ cfg s w id rest false (hbatch ▸ .refl _)
          refine @next (.task_ends w id false) s₁ id ⟨rfl, rfl⟩ hs₁ hgroup ?_
          simp only [Consumer.hand, List.length_append, List.length_map, hbatch, List.length_cons]
            at hn ⊢
          rw [← hrest.length_eq, hclaimed]
          omega
      | nil =>
          cases hclaimed : (s.consumers w).claimed with
          | cons job rest =>
              obtain ⟨s₁, hs₁, hgroup, hrest, hbatch₁⟩ :=
                @Queue.exists_next φ cfg s w job rest false hclaimed
              refine @next (.recover_next w false) s₁ job.1 ⟨rfl, rfl⟩ hs₁ hgroup ?_
              simp only [Consumer.hand, List.length_append, List.length_map, hclaimed,
                List.length_cons] at hn ⊢
              rw [hbatch₁, hrest, if_neg Bool.false_ne_true]
              omega
          | nil => exact ⟨s, .refl, hbatch, hclaimed, rfl, rfl, le_rfl⟩

/-- By then every entry is stale. -/
theorem stale_of_elapse {g : StreamGroup φ} {idle_timeout_ms : ℤ} :
    ∀ e ∈ (g.elapse idle_timeout_ms.toNat).pending.entries, stale idle_timeout_ms e = true := by
  intro e he
  obtain ⟨e₀, -, rfl⟩ := List.mem_map.mp he
  refine decide_eq_true ?_
  have := Int.self_le_toNat idle_timeout_ms
  push_cast
  omega

/-- If everything is stale, the first entry is the first to be claimed. -/
theorem claim_first {p : PendingList ℕ φ} {e : PendingEntry ℕ φ} {rest : List (PendingEntry ℕ φ)}
    {consumer_name : String} {idle_timeout_ms : ℤ} {batch_size : ℕ} (hbatch : 0 < batch_size)
    (hentries : p.entries = e :: rest) (hstale : ∀ a ∈ p.entries, stale idle_timeout_ms a = true) :
    ∃ more, (claim_stale_pending p consumer_name idle_timeout_ms batch_size).1
      = job_of e :: more := by
  obtain ⟨k, rfl⟩ := Nat.exists_eq_succ_of_ne_zero hbatch.ne'
  rw [claim_stale_pending_jobs, List.filter_eq_self.mpr fun a ha =>
    hstale a (List.mem_of_mem_take ha), hentries, List.take_succ_cons, List.map_cons]
  exact ⟨_, rfl⟩

/-- A recovery pass begins. -/
theorem Queue.exists_claimed {s : Queue φ} {w : ℕ} {e : PendingEntry ℕ φ}
    {rest : List (PendingEntry ℕ φ)} (hbatch : 0 < cfg.batch_size)
    (hclaimed : (s.consumers w).claimed = []) (hentries : s.group.pending.entries = e :: rest)
    (hstale : ∀ a ∈ s.group.pending.entries, stale cfg.idle_timeout_ms a = true) :
    ∃ s' more, s.step cfg (.claim_stale w) = some s' ∧
      (s'.consumers w).claimed = job_of e :: more ∧ s'.group.stream = s.group.stream ∧
      s'.group.next = s.group.next ∧ s'.group.pending.entries.map PendingEntry.message_id
        = s.group.pending.entries.map PendingEntry.message_id := by
  obtain ⟨more, hjobs⟩ := @claim_first φ _ _ _ (cfg.consumer_name w) _ _ hbatch hentries hstale
  refine ⟨_, more, if_pos hclaimed, ?_, rfl, rfl, Queue.claim_stale_pending_ids ..⟩
  rw [Queue.consumers_hold_self]
  exact hjobs

/-- An ack of the first entry leaves fewer. -/
theorem length_ack_lt {p p' : PendingList ℕ φ} {id : ℕ} {ids : List ℕ}
    (hids : p.entries.map PendingEntry.message_id = id :: ids)
    (hids' : p'.entries.map PendingEntry.message_id = id :: ids) :
    (p'.ack id).entries.length < p.entries.length := by
  have hfilter : (p'.ack id).entries.length
      = ((p'.entries.map PendingEntry.message_id).filter fun m => decide (m ≠ id)).length := by
    rw [List.filter_map, List.length_map]
    rfl
  have hlength : p.entries.length = ids.length + 1 := by
    rw [← List.length_map PendingEntry.message_id, hids, List.length_cons]
  rw [hfilter, hids', List.filter_cons_of_neg (by simp), hlength]
  exact Nat.lt_succ_of_le (List.length_filter_le _ _)

/-- The worker recovers the first pending entry, whoever had it. It waits for as long as
the timeout, so that all pending entries are stale, claims a batch of them, which contains
the first, and lets the calls return. -/
theorem Queue.exists_recovered {s : Queue φ} {w : ℕ} {e : PendingEntry ℕ φ}
    {rest : List (PendingEntry ℕ φ)} (hbatch : 0 < cfg.batch_size)
    (hclaimed : (s.consumers w).claimed = []) (hentries : s.group.pending.entries = e :: rest) :
    ∃ s', Reaches (Queue.step cfg) (fun _ a => a.alone w) s s' ∧
      s'.group.stream = s.group.stream ∧ s'.left < s.left := by
  obtain ⟨s₁, helapse, hconsumers₁, hgroup₁⟩ : ∃ s₁ : Queue φ,
      s.step cfg (.elapse cfg.idle_timeout_ms.toNat) = some s₁ ∧ s₁.consumers = s.consumers ∧
        s₁.group = s.group.elapse cfg.idle_timeout_ms.toNat := ⟨_, rfl, rfl, rfl⟩
  have hentries₁ : s₁.group.pending.entries
      = { e with idle := e.idle + cfg.idle_timeout_ms.toNat } ::
        rest.map fun e => { e with idle := e.idle + cfg.idle_timeout_ms.toNat } := by
    rw [hgroup₁]
    exact (congrArg (List.map _) hentries).trans List.map_cons
  obtain ⟨s₂, more, hclaim, hhand, hstream₂, hnext₂, hids⟩ :=
    @Queue.exists_claimed φ cfg s₁ w _ _ hbatch (hconsumers₁ ▸ hclaimed) hentries₁
      (hgroup₁ ▸ stale_of_elapse)
  obtain ⟨s₃, hrecover, hgroup₃, -⟩ := @Queue.exists_next φ cfg s₂ w _ _ false hhand
  rw [if_neg Bool.false_ne_true] at hgroup₃
  have hstream : s₃.group.stream = s.group.stream := by
    rw [hgroup₃]
    exact hstream₂.trans (by rw [hgroup₁]; rfl)
  have hnext : s₃.group.next = s.group.next := by
    rw [hgroup₃]
    exact hnext₂.trans (by rw [hgroup₁]; rfl)
  have hless : s₃.group.pending.entries.length < s.group.pending.entries.length := by
    rw [hgroup₃]
    refine @length_ack_lt φ _ s₂.group.pending _ (rest.map PendingEntry.message_id) ?_ ?_
    · rw [hentries]
      rfl
    · rw [hids, hentries₁, List.map_cons, List.map_map]
      rfl
  refine ⟨s₃, .tail (.recover_next w false) (.tail (.claim_stale w) (.single (.elapse
    cfg.idle_timeout_ms.toNat) trivial helapse) rfl hclaim) ⟨rfl, rfl⟩ hrecover, hstream, ?_⟩
  unfold Queue.left
  rw [hstream, hnext]
  exact Nat.add_lt_add_left hless _

/-- One worker by itself leaves less to do. -/
theorem Queue.exists_less (hpoll : 0 < cfg.poll_count) (hbatch : 0 < cfg.batch_size)
    (s : Queue φ) (w : ℕ)
    (h : ¬ (s.group.next = s.group.stream.length ∧ s.group.pending.entries = [])) :
    ∃ s', Reaches (Queue.step cfg) (fun _ a => a.alone w) s s' ∧
      s'.group.stream = s.group.stream ∧ s'.left < s.left := by
  obtain ⟨s₁, hreach, hempty, hclaimed, hstream, hnext, hleft⟩ :=
    Queue.exists_empty_handed cfg s w
  by_cases hlt : s₁.group.next < s₁.group.stream.length
  · refine ⟨_, hreach.tail (.read w) rfl (if_pos hempty), hstream, lt_of_lt_of_le ?_ hleft⟩
    have hlength := s₁.group.unread_length cfg.poll_count
    simp only [Queue.left, Queue.hold, StreamGroup.read, List.length_append, List.length_map,
      hlength]
    omega
  · cases hentries : s₁.group.pending.entries with
    | nil =>
        refine ⟨s₁, hreach, hstream, ?_⟩
        have hle := s.group.next_le
        have hpos : s.group.next = s.group.stream.length → s.group.pending.entries ≠ [] :=
          fun heq hnil => h ⟨heq, hnil⟩
        rw [hstream, hnext] at hlt
        have hlength := List.length_pos_iff.mpr (hpos (by omega))
        simp only [Queue.left, hentries, hstream, hnext, List.length_nil]
        omega
    | cons e rest =>
        obtain ⟨s₂, hreach₂, hstream₂, hless⟩ := Queue.exists_recovered hbatch hclaimed hentries
        exact ⟨s₂, hreach.trans hreach₂, hstream₂.trans hstream, hless.trans_le hleft⟩

end Drain

/-- **Nothing is stuck.** From every state that a run reaches, whoever has died with
whatever in hand, one worker by itself can go on until a call has returned for each entry
of the stream, and then nothing is pending. By descent on what is left to do
([`Queue.left`]). As long as there is an entry that has not been read or one that is
pending, the worker can empty its hands and then read, or wait for the timeout and claim,
and in each case less is left ([`Queue.exists_less`]). The dead cannot be in the way: an
entry belongs to nobody once it is stale. -/
theorem queue_drains (cfg : QueueConfig) (hpoll : 0 < cfg.poll_count)
    (hbatch : 0 < cfg.batch_size) (s : Queue φ)
    (hrun : Reaches (Queue.step cfg) (fun _ _ => True) {} s) (w : ℕ) :
    ∃ s', Reaches (Queue.step cfg) (fun _ a => a.alone w) s s' ∧
      s'.group.stream = s.group.stream ∧ s'.group.pending.entries = [] ∧
      ∀ id, id < s.group.stream.length → id ∈ s'.returned := by
  obtain ⟨s', hreach, ⟨hacc, hstream⟩, hnext, hentries⟩ := Reaches.descend
    (fun u : Queue φ => u.Accounted ∧ u.group.stream = s.group.stream)
    (fun u => u.group.next = u.group.stream.length ∧ u.group.pending.entries = [])
    Queue.left (fun u hu hgoal => by
      obtain ⟨v, hreach, hstream, hless⟩ := Queue.exists_less hpoll hbatch u w hgoal
      refine ⟨v, hreach, ⟨?_, hstream.trans hu.2⟩, hless⟩
      exact hreach.invariant Queue.Accounted hu.1 fun _ _ _ h _ hs => h.step hs)
    ⟨delivered_accounted hrun, rfl⟩
  refine ⟨s', hreach, hstream, hentries, fun id hid => (hacc.returned id).mpr ⟨?_, ?_⟩⟩
  · rw [hnext, hstream]
    exact hid
  · rintro ⟨e, he, -⟩
    rw [hentries] at he
    cases he

/-- A worker dies with a job in hand. Another one can finish it. -/
theorem queue_drains_dead_worker :
    ∃ s s' : Queue Unit, (s.consumers 1).hand = [] ∧ s.group.pending.Pending 0 ∧
      Reaches (Queue.step minute_timeout) (fun _ a => a.alone 1) s s' ∧ 0 ∈ s'.returned := by
  obtain ⟨s, hs, hstream, hhand, hpending⟩ : ∃ s : Queue Unit,
      run (restrict (Queue.step minute_timeout) fun _ _ => true) {}
        [.publish (), .read 0, .die 0] = some s ∧ s.group.stream.length = 1 ∧
      (s.consumers 1).hand = [] ∧ s.group.pending.Pending 0 :=
    ⟨_, rfl, rfl, rfl, ⟨_, List.mem_cons_self, rfl⟩⟩
  have hrun : Reaches (Queue.step minute_timeout) (fun _ _ => True) {} s :=
    (reaches_of_run hs).mono fun _ _ _ => trivial
  obtain ⟨s', hreach, -, -, hreturned⟩ :=
    queue_drains minute_timeout (by decide) (by decide) s hrun 1
  exact ⟨s, s', hhand, hpending, hreach, hreturned 0 (by omega)⟩

end EventFlow
