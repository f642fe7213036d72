/-
The times of the tasks of a dependency graph.

A task is queued, started and finished; a time that has not come yet is `none`.
A dependent task is queued after the tasks it depends on have finished. Along
every chain of dependencies the tasks then run one after the other
([`finished_before`]), and together no longer than from the start to the end of
the whole ([`chain_duration`]).
-/
import Mathlib.Logic.Relation
import Mathlib.Algebra.BigOperators.Group.List.Basic
import Mathlib.Data.List.Chain
import Mathlib.Algebra.Ring.Nat
import Mathlib.Data.Nat.Notation

set_option autoImplicit false

namespace TaskTimes

/-- Both times have come, in this order. -/
def Before (a b : Option ℕ) : Prop := ∃ x ∈ a, ∃ y ∈ b, x ≤ y

/-- When a task was last queued, last started and last finished. -/
structure Times where
  queued : Option ℕ := none
  started : Option ℕ := none
  finished : Option ℕ := none

namespace Times

/-- `t` is one of the times. -/
def At (times : Times) (t : ℕ) : Prop :=
  times.queued = some t ∨ times.started = some t ∨ times.finished = some t

/-- The task has run to its end. -/
structure Ran (times : Times) : Prop where
  waited : Before times.queued times.started
  worked : Before times.started times.finished

/-- How long the task has run. -/
def duration (times : Times) : ℕ :=
  match times.started, times.finished with
  | some x, some y => y - x
  | _, _ => 0

end Times

section Before

variable {a b c : Option ℕ} {t : ℕ}

theorem Before.trans (hab : Before a b) (hbc : Before b c) : Before a c := by
  obtain ⟨x, hx, y, hy, hxy⟩ := hab
  obtain ⟨y', hy', z, hz, hyz⟩ := hbc
  obtain rfl := Option.mem_unique hy hy'
  exact ⟨x, hx, z, hz, Nat.le_trans hxy hyz⟩

theorem Before.isSome_left (h : Before a b) : a.isSome = true := by
  obtain ⟨x, hx, -⟩ := h
  exact Option.isSome_of_mem hx

theorem Before.isSome_right (h : Before a b) : b.isSome = true := by
  obtain ⟨-, -, y, hy, -⟩ := h
  exact Option.isSome_of_mem hy

/-- A time that has come is before one that is now. -/
theorem before_now (ha : a.isSome = true) (hle : ∀ x ∈ a, x ≤ t) : Before a (some t) := by
  obtain ⟨x, hx⟩ := Option.isSome_iff_exists.mp ha
  exact ⟨x, hx, t, rfl, hle x hx⟩

end Before

section Chains

variable {ι : Type*} {dep : ι → ι → Prop} {path : List ι} {n : ι}

/-- A task that has run has taken its time. -/
theorem Times.Ran.finished {x : Times} (h : x.Ran) {q : ℕ} (hq : x.queued = some q) :
    ∃ f, x.finished = some f ∧ q + x.duration ≤ f := by
  obtain ⟨q', hq', s, hs, hqs⟩ := h.waited
  obtain ⟨s', hs', f, hf, hsf⟩ := h.worked
  obtain rfl := Option.mem_unique hs hs'
  obtain rfl := Option.mem_unique hq hq'
  refine ⟨f, hf, ?_⟩
  have hduration : x.duration = f - s := by
    unfold Times.duration
    rw [Option.mem_def.mp hs, Option.mem_def.mp hf]
  omega

/-- **One after the other.** Tasks that are queued after what they depend on are
queued after all that they depend on, near and far. -/
theorem finished_before (times : ι → Times) (active : ι → Prop) {a : ι}
    (hpath : Relation.TransGen dep a n)
    (hn : active n) (hedge : ∀ p c, dep p c → active c →
      active p ∧ (times p).Ran ∧ Before (times p).finished (times c).queued) :
    Before (times a).finished (times n).queued := by
  induction hpath with
  | single hdep => exact (hedge _ _ hdep hn).2.2
  | tail hpath hdep ih =>
      obtain ⟨hactive, hran, hbefore⟩ := hedge _ _ hdep hn
      exact (((ih hactive).trans hran.waited).trans hran.worked).trans hbefore

/-- **No whole is shorter than a chain of its parts.** The tasks of a chain have
run, together, no longer than from a time before the first one to a time after
all of them. -/
theorem chain_duration (times : ι → Times) {start finish : ℕ} (hle : start ≤ finish)
    (hpath : path.IsChain dep) (hran : ∀ m ∈ path, (times m).Ran)
    (hedge : ∀ p c, dep p c → c ∈ path → Before (times p).finished (times c).queued)
    (hstart : ∀ m ∈ path.head?, ∀ t ∈ (times m).queued, start ≤ t)
    (hfinish : ∀ m ∈ path, ∀ t ∈ (times m).finished, t ≤ finish) :
    start + (path.map fun m => (times m).duration).sum ≤ finish := by
  induction path generalizing start with
  | nil => simpa using hle
  | cons m path ih =>
      have hm := hran m List.mem_cons_self
      obtain ⟨q, hq⟩ := Option.isSome_iff_exists.mp hm.waited.isSome_left
      obtain ⟨f, hf, hduration⟩ := hm.finished hq
      -- the rest starts when `m` has finished
      have hrest : f + (path.map fun m => (times m).duration).sum ≤ finish := by
        refine ih (hfinish m List.mem_cons_self f hf) hpath.tail
          (fun k hk => hran k (List.mem_cons_of_mem m hk))
          (fun p c hdep hc => hedge p c hdep (List.mem_cons_of_mem m hc)) ?_
          (fun k hk => hfinish k (List.mem_cons_of_mem m hk))
        intro k hk t ht
        obtain ⟨f', hf', t', ht', hft⟩ :=
          hedge m k (hpath.rel_head? hk) (List.mem_cons_of_mem m (List.mem_of_mem_head? hk))
        obtain rfl := Option.mem_unique hf hf'
        obtain rfl := Option.mem_unique ht ht'
        exact hft
      have hq' := hstart m rfl q hq
      rw [List.map_cons, List.sum_cons]
      omega

end Chains

end TaskTimes
