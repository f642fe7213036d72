/-
Transition systems with a log.

A property of a whole run (how often something was done, that something was
never done) is not a property of its last state. [`logged`] adds to a system a
list of notes, to which every step appends what `note` makes of it. The log is
a history variable: no step looks at it, so a logged run is a run
([`Reaches.forget`]) and every run has a log ([`Reaches.with_log`]).
-/
import EventFlow.Library.Transition
import Mathlib.Data.List.Basic

set_option autoImplicit false

namespace Transition

variable {σ α ν : Type*} {step : σ → α → Option σ} {note : σ → α → σ → List ν}
  {guard : σ → α → Prop}

/-- The system together with the notes its steps have made. The state is what it would be
without the notes. -/
def logged (step : σ → α → Option σ) (note : σ → α → σ → List ν) (s : σ × List ν) (a : α) :
    Option (σ × List ν) :=
  (step s.1 a).map fun s' => (s', s.2 ++ note s.1 a s')

theorem logged_eq_some_iff {s s' : σ × List ν} {a : α} :
    logged step note s a = some s' ↔
      step s.1 a = some s'.1 ∧ s'.2 = s.2 ++ note s.1 a s'.1 := by
  unfold logged
  rw [Option.map_eq_some_iff]
  constructor
  · rintro ⟨u, hu, rfl⟩
    exact ⟨hu, rfl⟩
  · rintro ⟨hs, hlog⟩
    exact ⟨s'.1, hs, by rw [← hlog]⟩

/-- Runs under a guard that does not look at the log. -/
abbrev Logged (step : σ → α → Option σ) (note : σ → α → σ → List ν) (guard : σ → α → Prop) :
    σ × List ν → σ × List ν → Prop :=
  Reaches (logged step note) fun s a => guard s.1 a

/-- A logged run is a run. -/
theorem Reaches.forget {s s' : σ × List ν} (hrun : Logged step note guard s s') :
    Reaches step guard s.1 s'.1 := by
  induction hrun with
  | refl => exact .refl
  | tail a _ hg hs ih => exact .tail a ih hg (logged_eq_some_iff.mp hs).1

/-- Every run has a log. So a property of logged runs holds of all runs. -/
theorem Reaches.with_log {s s' : σ} (hrun : Reaches step guard s s') (log : List ν) :
    ∃ log', Logged step note guard (s, log) (s', log') := by
  induction hrun with
  | refl => exact ⟨log, .refl⟩
  | @tail u v a _ hg hs ih =>
      obtain ⟨log', hrun⟩ := ih
      exact ⟨log' ++ note u a v, .tail a hrun hg (logged_eq_some_iff.mpr ⟨hs, rfl⟩)⟩

end Transition
