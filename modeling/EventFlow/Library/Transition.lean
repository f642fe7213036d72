/-
Labelled transition systems given by a partial step function.

A system is a state type, an action type and `step : σ → α → Option σ`, where
`none` means that the action is not enabled. A run is a list of actions; a
*guarded* run is one in which every action, looked at in the state it is taken
in, satisfies a predicate. Guards serve two purposes with one definition: they
cut the alphabet down to the steps a statement is about, and they carry a side
condition that every step of a run has to meet.

Everything here is about an arbitrary system. The rules the rest of the
development uses are [`Reaches.invariant`] (an invariant that every guarded
step keeps holds along every guarded run), [`Reaches.simulate`] (a step-by-step
simulation simulates whole runs), [`Reaches.descend`] (if a measure can always be
lowered, the goal can be reached) and [`reaches_of_run`] (a concrete list of
actions, evaluated by `run` under a check, is a guarded run).
-/
import Mathlib.Logic.Relation

set_option autoImplicit false

namespace Transition

variable {σ α : Type*}

/-- The state a list of actions leads to, `none` as soon as one of them is not
enabled. -/
def run (step : σ → α → Option σ) : σ → List α → Option σ
  | s, [] => some s
  | s, a :: as => (step s a).bind fun s' => run step s' as

@[simp] theorem run_nil (step : σ → α → Option σ) (s : σ) : run step s [] = some s := rfl

@[simp] theorem run_cons (step : σ → α → Option σ) (s : σ) (a : α) (as : List α) :
    run step s (a :: as) = (step s a).bind fun s' => run step s' as := rfl

theorem run_append (step : σ → α → Option σ) (s : σ) (as bs : List α) :
    run step s (as ++ bs) = (run step s as).bind fun s' => run step s' bs := by
  induction as generalizing s with
  | nil => rfl
  | cons a as ih =>
      rw [List.cons_append, run_cons, run_cons, Option.bind_assoc]
      simp only [ih]

/-- What every step keeps is kept by a list of actions. -/
theorem run_invariant {step : σ → α → Option σ} {s s' : σ} {as : List α} (P : σ → Prop)
    (hrun : run step s as = some s') (h0 : P s)
    (hstep : ∀ u a v, P u → step u a = some v → P v) : P s' := by
  induction as generalizing s with
  | nil =>
      rw [run_nil, Option.some.injEq] at hrun
      exact hrun ▸ h0
  | cons a as ih =>
      rw [run_cons, Option.bind_eq_some_iff] at hrun
      obtain ⟨u, hu, hrest⟩ := hrun
      exact ih hrest (hstep s a u h0 hu)

/-- `Reaches step guard s s'`: some run leads from `s` to `s'` whose every
action satisfies `guard` in the state it is taken in. -/
inductive Reaches (step : σ → α → Option σ) (guard : σ → α → Prop) (s : σ) : σ → Prop
  | refl : Reaches step guard s s
  | tail {u v : σ} (a : α) : Reaches step guard s u → guard u a → step u a = some v →
      Reaches step guard s v

variable {step : σ → α → Option σ} {guard guard' : σ → α → Prop}

/-- **The invariant rule.** What holds at the start and is kept by every
guarded step holds at every state a guarded run reaches. -/
theorem Reaches.invariant {s s' : σ} (P : σ → Prop) (hrun : Reaches step guard s s')
    (h0 : P s)
    (hstep : ∀ u a v, P u → guard u a → step u a = some v → P v) : P s' := by
  induction hrun with
  | refl => exact h0
  | tail a _ hg hs ih => exact hstep _ a _ ih hg hs

/-- A run under a stronger guard is a run under a weaker one. -/
theorem Reaches.mono {s s' : σ} (h : ∀ u a, guard u a → guard' u a)
    (hrun : Reaches step guard s s') : Reaches step guard' s s' := by
  induction hrun with
  | refl => exact .refl
  | tail a _ hg hs ih => exact .tail a ih (h _ _ hg) hs

/-- The same, where the weaker guard follows with the help of an invariant. -/
theorem Reaches.mono_of_invariant {s s' : σ} (P : σ → Prop) (hrun : Reaches step guard s s')
    (h0 : P s) (hstep : ∀ u a v, P u → guard u a → step u a = some v → P v)
    (h : ∀ u a, P u → guard u a → guard' u a) : Reaches step guard' s s' := by
  induction hrun with
  | refl => exact .refl
  | tail a hr hg hs ih => exact .tail a ih (h _ _ (hr.invariant P h0 hstep) hg) hs

theorem Reaches.trans {s u v : σ} (h₁ : Reaches step guard s u)
    (h₂ : Reaches step guard u v) : Reaches step guard s v := by
  induction h₂ with
  | refl => exact h₁
  | tail a _ hg hs ih => exact .tail a ih hg hs

theorem Reaches.single {s u : σ} (a : α) (hg : guard s a) (hs : step s a = some u) :
    Reaches step guard s u := .tail a .refl hg hs

/-- **The simulation rule.** If every guarded step can be followed by a run of a
second system that keeps `R`, so can every guarded run. -/
theorem Reaches.simulate {τ β : Type*} {step' : τ → β → Option τ} {allowed : τ → β → Prop}
    {R : σ → τ → Prop} {s s' : σ} {t : τ} (hrun : Reaches step guard s s') (h : R s t)
    (hstep : ∀ u a u' v, R u v → guard u a → step u a = some u' →
      ∃ v', Reaches step' allowed v v' ∧ R u' v') :
    ∃ t', Reaches step' allowed t t' ∧ R s' t' := by
  induction hrun with
  | refl => exact ⟨t, .refl, h⟩
  | tail a _ hg hs ih =>
      obtain ⟨u, hu, hR⟩ := ih
      obtain ⟨v, hv, hR'⟩ := hstep _ a _ u hR hg hs
      exact ⟨v, hu.trans hv, hR'⟩

/-- **The progress rule.** If from every state that satisfies `I` and misses the
goal a guarded run leads to one that satisfies `I` and has a smaller measure,
then from every state that satisfies `I` a guarded run leads to the goal. -/
theorem Reaches.descend (I goal : σ → Prop) (measure : σ → Nat)
    (hlower : ∀ u, I u → ¬ goal u →
      ∃ v, Reaches step guard u v ∧ I v ∧ measure v < measure u)
    {s : σ} (h0 : I s) : ∃ s', Reaches step guard s s' ∧ I s' ∧ goal s' := by
  induction hm : measure s using Nat.strongRecOn generalizing s with
  | ind m ih =>
      by_cases hgoal : goal s
      · exact ⟨s, .refl, h0, hgoal⟩
      · obtain ⟨u, hu, hI, hlt⟩ := hlower s h0 hgoal
        obtain ⟨v, hv, hvI, hvgoal⟩ := ih (measure u) (hm ▸ hlt) hI rfl
        exact ⟨v, hu.trans hv, hvI, hvgoal⟩

/-- The step function cut down to the steps that pass a check. -/
def restrict (step : σ → α → Option σ) (check : σ → α → Bool) (s : σ) (a : α) : Option σ :=
  if check s a then step s a else none

/-- A run of the system cut down is a run of the system. -/
theorem run_of_run_restrict {check : σ → α → Bool} {s s' : σ} {as : List α}
    (hrun : run (restrict step check) s as = some s') : run step s as = some s' := by
  induction as generalizing s with
  | nil => exact hrun
  | cons a as ih =>
      rw [run_cons, Option.bind_eq_some_iff] at hrun ⊢
      obtain ⟨u, hu, hrest⟩ := hrun
      unfold restrict at hu
      split at hu
      · exact ⟨u, hu, ih hrest⟩
      · cases hu

/-- A concrete list of actions that runs under a check is a guarded run. -/
theorem reaches_of_run {check : σ → α → Bool} {s s' : σ} {as : List α}
    (hrun : run (restrict step check) s as = some s') :
    Reaches step (fun s a => check s a = true) s s' := by
  induction as generalizing s with
  | nil =>
      rw [run_nil, Option.some.injEq] at hrun
      exact hrun ▸ .refl
  | cons a as ih =>
      rw [run_cons, Option.bind_eq_some_iff] at hrun
      obtain ⟨u, hu, hrest⟩ := hrun
      unfold restrict at hu
      split at hu
      · rename_i hcheck
        exact (Reaches.single a hcheck hu).trans (ih hrest)
      · cases hu

end Transition
