/-
Giving a list of names that may be missing or repeated a name each.

The list is passed once. A name that is missing, or that is taken by then, is
replaced by one made from its position; whatever is used is taken from then on.
The invented names are distinct from each other, but not from the given ones:
one that is invented early can be a name given later, and one that is invented
late can be a name given before.

[`repair_iff`] says exactly when this goes well, that is, when the result has no
repetition and the first occurrence of every given name keeps it: no position
that is given a name stands for a name of the list.
-/
import Mathlib.Data.List.Nodup
import Mathlib.Logic.Function.Basic

set_option autoImplicit false

namespace NameRepair

variable {α : Type*} [DecidableEq α]

/-- The names that are used; `index` is the position, `seen` what is taken. -/
def repair (auto : ℕ → α) (missing : α) : ℕ → List α → List α → List α
  | _, _, [] => []
  | index, seen, x :: xs =>
    let name := if x = missing ∨ x ∈ seen then auto index else x
    name :: repair auto missing (index + 1) (name :: seen) xs

/-- The position has no name of its own: it is missing or was given before. -/
def NeedsName (missing : α) (own : List α) (i : ℕ) : Prop :=
  ∃ x, own[i]? = some x ∧ (x = missing ∨ x ∈ own.take i)

/-- Every name keeps its first position. -/
def KeepsFirst (missing : α) (own used : List α) : Prop :=
  ∀ i x, own[i]? = some x → x ≠ missing → x ∉ own.take i → used[i]? = some x

/-! ## Positions -/

omit [DecidableEq α] in
theorem mem_take_iff {l : List α} {i : ℕ} {x : α} :
    x ∈ l.take i ↔ ∃ j < i, l[j]? = some x := by
  rw [List.mem_iff_getElem?]
  constructor
  · rintro ⟨j, hj⟩
    rw [List.getElem?_take] at hj
    split at hj
    · rename_i hlt
      exact ⟨j, hlt, hj⟩
    · cases hj
  · rintro ⟨j, hlt, hj⟩
    refine ⟨j, ?_⟩
    rw [List.getElem?_take, if_pos hlt]
    exact hj

omit [DecidableEq α] in
/-- What occurs occurs for the first time. -/
theorem exists_first {l : List α} {i : ℕ} {x : α} (h : l[i]? = some x) :
    ∃ j ≤ i, l[j]? = some x ∧ x ∉ l.take j := by
  induction i using Nat.strongRecOn with
  | _ i ih =>
      by_cases hmem : x ∈ l.take i
      · obtain ⟨j, hlt, hj⟩ := mem_take_iff.mp hmem
        obtain ⟨k, hle, hk⟩ := ih j hlt hj
        exact ⟨k, Nat.le_trans hle (Nat.le_of_lt hlt), hk⟩
      · exact ⟨i, Nat.le_refl i, h, hmem⟩

/-! ## What is used at a position -/

section Repair

variable (auto : ℕ → α) (missing : α)

theorem length_repair (index : ℕ) (seen own : List α) :
    (repair auto missing index seen own).length = own.length := by
  induction own generalizing index seen with
  | nil => rfl
  | cons x xs ih => rw [repair, List.length_cons, List.length_cons, ih]

/-- One position: the name is invented if the own one is missing, taken from the
start or used before. -/
theorem getElem?_repair_seen {index : ℕ} {seen own : List α} {i : ℕ} {x : α}
    (h : own[i]? = some x) :
    (repair auto missing index seen own)[i]? = some
      (if x = missing ∨ x ∈ seen ∨ x ∈ (repair auto missing index seen own).take i
        then auto (index + i) else x) := by
  induction own generalizing index seen i with
  | nil => cases h
  | cons y ys ih =>
      rw [repair]
      cases i with
      | zero =>
          cases h
          rw [List.take_zero, List.getElem?_cons_zero]
          simp only [List.not_mem_nil, or_false, Nat.add_zero]
      | succ i =>
          rw [List.getElem?_cons_succ] at h
          rw [List.getElem?_cons_succ, ih h, List.take_succ_cons]
          have hcomm : index + 1 + i = index + (i + 1) := by omega
          simp only [List.mem_cons, hcomm, or_assoc, or_left_comm]

/-- The same from the start. -/
theorem getElem?_repair {own : List α} {i : ℕ} {x : α} (h : own[i]? = some x) :
    (repair auto missing 0 [] own)[i]? = some
      (if x = missing ∨ x ∈ (repair auto missing 0 [] own).take i then auto i else x) := by
  rw [getElem?_repair_seen auto missing h]
  simp only [List.not_mem_nil, false_or, Nat.zero_add]

variable {auto : ℕ → α} {missing : α} {own : List α}

/-- Where the first occurrences keep their names, a position without one is
given its invented name. -/
theorem repair_of_needsName {i : ℕ}
    (hkeep : KeepsFirst missing own (repair auto missing 0 [] own))
    (h : NeedsName missing own i) :
    (repair auto missing 0 [] own)[i]? = some (auto i) := by
  obtain ⟨x, hx, hneeds⟩ := h
  rw [getElem?_repair auto missing hx]
  by_cases hmissing : x = missing
  · rw [if_pos (Or.inl hmissing)]
  · obtain ⟨j, hlt, hj⟩ := mem_take_iff.mp (hneeds.resolve_left hmissing)
    obtain ⟨k, hle, hk, hfirst⟩ := exists_first hj
    have hused := hkeep k x hk hmissing hfirst
    rw [if_pos (Or.inr (mem_take_iff.mpr ⟨k, Nat.lt_of_le_of_lt hle hlt, hused⟩))]

/-- If no invented name is a given one, a name is invented exactly where none is
there or it is a repetition of the given names. -/
theorem repair_of_disjoint (hauto : ∀ i, NeedsName missing own i → auto i ∉ own) {i : ℕ} {x : α}
    (hx : own[i]? = some x) :
    (repair auto missing 0 [] own)[i]? = some
      (if x = missing ∨ x ∈ own.take i then auto i else x) := by
  -- over the position: what is used before is known
  induction i using Nat.strongRecOn generalizing x with
  | _ i ih =>
      rw [getElem?_repair auto missing hx]
      have hiff : x ≠ missing →
          (x ∈ (repair auto missing 0 [] own).take i ↔ x ∈ own.take i) := by
        intro hmissing
        constructor
        · intro hmem
          obtain ⟨j, hlt, hj⟩ := mem_take_iff.mp hmem
          have hlen : j < own.length := by
            rw [← length_repair auto missing 0 [] own]
            exact (List.getElem?_eq_some_iff.mp hj).1
          have hy := List.getElem?_eq_getElem hlen
          have hused := ih j hlt hy
          rw [hj, Option.some.injEq] at hused
          split at hused
          · rename_i hneeds
            -- the name was invented, so it is not given
            exact absurd (hused ▸ List.mem_of_getElem? hx) (hauto j ⟨_, hy, hneeds⟩)
          · rw [hused]
            exact mem_take_iff.mpr ⟨j, hlt, hy⟩
        · intro hmem
          obtain ⟨j, hlt, hj⟩ := mem_take_iff.mp hmem
          obtain ⟨k, hle, hk, hfirst⟩ := exists_first hj
          have hused := ih k (Nat.lt_of_le_of_lt hle hlt) hk
          rw [if_neg (not_or.mpr ⟨hmissing, hfirst⟩)] at hused
          exact mem_take_iff.mpr ⟨k, Nat.lt_of_le_of_lt hle hlt, hused⟩
      by_cases hmissing : x = missing
      · rw [if_pos (Or.inl hmissing), if_pos (Or.inl hmissing)]
      · simp only [hiff hmissing]

/-! ## When the repair goes well -/

/-- **The repair goes well** exactly if no position that is given a name stands for a name
of the list. If a position is given a name of the list, then either this name occurs twice
in the result, or its first occurrence in the list did not keep it. If no position is,
invented and given names stay apart, and whether a name is taken can be seen in the list
alone ([`repair_of_disjoint`]). -/
theorem repair_iff (own : List α) (hinj : Function.Injective auto)
    (hne : ∀ i, auto i ≠ missing) :
    (repair auto missing 0 [] own).Nodup ∧
        KeepsFirst missing own (repair auto missing 0 [] own) ↔
      ∀ i, NeedsName missing own i → auto i ∉ own := by
  constructor
  · rintro ⟨hnodup, hkeep⟩ i hneeds hmem
    obtain ⟨j, hj⟩ := List.mem_iff_getElem?.mp hmem
    obtain ⟨k, -, hk, hfirst⟩ := exists_first hj
    -- the name is used where it is given first and where it is invented
    have hgiven := hkeep k (auto i) hk (hne i) hfirst
    have hinvented := repair_of_needsName hkeep hneeds
    have hlt : i < (repair auto missing 0 [] own).length :=
      (List.getElem?_eq_some_iff.mp hinvented).1
    have hik := (List.getElem?_inj hlt hnodup).mp (hinvented.trans hgiven.symm)
    obtain ⟨x, hx, hcase⟩ := hneeds
    rw [hik, hk, Option.some.injEq] at hx
    rw [← hx] at hcase
    rcases hcase with hmissing | hbefore
    · exact hne i hmissing
    · exact hfirst (hik ▸ hbefore)
  · intro hauto
    have hused : ∀ {i x}, own[i]? = some x → (repair auto missing 0 [] own)[i]? = some
        (if x = missing ∨ x ∈ own.take i then auto i else x) :=
      fun hx => repair_of_disjoint hauto hx
    refine ⟨?_, ?_⟩
    · rw [List.nodup_iff_getElem?_ne_getElem?]
      intro i j hij hj heq
      rw [length_repair] at hj
      have hx := List.getElem?_eq_getElem (Nat.lt_trans hij hj)
      have hy := List.getElem?_eq_getElem hj
      rw [hused hx, hused hy, Option.some.injEq] at heq
      split at heq
      · rename_i hi
        split at heq
        · exact Nat.ne_of_lt hij (hinj heq)
        · exact hauto i ⟨_, hx, hi⟩ (heq ▸ List.mem_of_getElem? hy)
      · split at heq
        · rename_i hj'
          exact hauto j ⟨_, hy, hj'⟩ (heq ▸ List.mem_of_getElem? hx)
        · rename_i hj'
          exact hj' (Or.inr (mem_take_iff.mpr ⟨i, hij, heq ▸ hx⟩))
    · intro i x hx hmissing hfirst
      rw [hused hx, if_neg (not_or.mpr ⟨hmissing, hfirst⟩)]

end Repair

end NameRepair
