/-
Selections of a list of rows, and the updates that leave them alone.

A statement such as `SELECT ... WHERE p` is `List.filter p`. The three ways to
change a table are to add rows, to rewrite rows in place and to remove rows;
each has a lemma here that says when a selection does not see the change. The
other lemmas are about keys: which changes keep them, and that under distinct
keys two rows with one key are one row, so what is known of the row that a
lookup has found is known of every row that an update by its key touches.
-/
import Mathlib.Algebra.Ring.Nat
import Mathlib.Data.List.Nodup

set_option autoImplicit false

namespace Selection

variable {α κ : Type*} {p q : α → Bool} {l : List α}

/-- Rows are added that are not selected. -/
theorem filter_append {new : List α} (h : ∀ x ∈ new, p x = false) :
    (l ++ new).filter p = l.filter p := by
  have hnil : new.filter p = [] := by
    rw [List.filter_eq_nil_iff]
    intro x hx
    rw [h x hx]
    exact Bool.false_ne_true
  rw [List.filter_append, hnil, List.append_nil]

/-- Rows are rewritten that are not selected, neither before nor after. So an update by
key leaves a selection alone that the rows with this key are not in. -/
theorem filter_map {f : α → α} (h : ∀ x ∈ l, f x = x ∨ p x = false ∧ p (f x) = false) :
    (l.map f).filter p = l.filter p := by
  induction l with
  | nil => rfl
  | cons x l ih =>
      have ih := ih fun y hy => h y (List.mem_cons_of_mem _ hy)
      rw [List.map_cons, List.filter_cons, List.filter_cons, ih]
      rcases h x List.mem_cons_self with hx | ⟨hx, hfx⟩
      · rw [hx]
      · rw [hx, hfx]
        rfl

/-- `filter_map` for an update of the rows with `c`. -/
theorem filter_update {c : α → Prop} [DecidablePred c] {f : α → α}
    (h : ∀ x ∈ l, c x → p x = false ∧ p (f x) = false) :
    (l.map fun x => if c x then f x else x).filter p = l.filter p := by
  apply filter_map
  intro x hx
  by_cases hc : c x
  · right
    rw [if_pos hc]
    exact h x hx hc
  · left
    rw [if_neg hc]

/-- Rows are removed that are not selected. -/
theorem filter_filter (h : ∀ x ∈ l, p x = true → q x = true) :
    (l.filter q).filter p = l.filter p := by
  rw [List.filter_filter]
  apply List.filter_congr
  intro x hx
  by_cases hpx : p x = true
  · rw [hpx, h x hx hpx]
    rfl
  · rw [Bool.not_eq_true] at hpx
    rw [hpx]
    rfl

/-- The keys of rows that keep their keys. -/
theorem map_key_map {key : α → κ} {f : α → α} (h : ∀ x ∈ l, key (f x) = key x) :
    (l.map f).map key = l.map key := by
  rw [List.map_map]
  exact List.map_congr_left h

/-- `map_key_map` for an update of the rows with `c`. -/
theorem map_key_update {key : α → κ} {c : α → Prop} [DecidablePred c] {f : α → α}
    (h : ∀ x ∈ l, c x → key (f x) = key x) :
    (l.map fun x => if c x then f x else x).map key = l.map key := by
  apply map_key_map
  intro x hx
  by_cases hc : c x
  · rw [if_pos hc, h x hx hc]
  · rw [if_neg hc]

/-- Rows are rewritten that keep their keys. -/
theorem nodup_key_update {key : α → κ} (hnodup : (l.map key).Nodup) {c : α → Prop}
    [DecidablePred c] {f : α → α} (h : ∀ x ∈ l, c x → key (f x) = key x) :
    ((l.map fun x => if c x then f x else x).map key).Nodup := by
  rw [map_key_update h]
  exact hnodup

/-- A row is added with a key of its own. -/
theorem nodup_key_concat {key : α → κ} (hnodup : (l.map key).Nodup) {x : α}
    (hx : key x ∉ l.map key) : ((l ++ [x]).map key).Nodup := by
  rw [List.map_append]
  apply List.Nodup.append hnodup (List.nodup_singleton _)
  intro k hk hkx
  rw [List.mem_singleton.mp hkx] at hk
  exact hx hk

/-- Rows are removed. -/
theorem nodup_key_filter {key : α → κ} (hnodup : (l.map key).Nodup) (p : α → Bool) :
    ((l.filter p).map key).Nodup :=
  hnodup.sublist (List.filter_sublist.map key)

/-- `GROUP BY`: the rows with one of some keys, counted key by key. The keys may come in
any order, but each only once. -/
theorem sum_countP_key [DecidableEq κ] (key : α → κ) {keys : List κ} (hnodup : keys.Nodup) :
    (keys.map fun k => (l.filter fun x => decide (key x = k)).countP p).sum
      = (l.filter fun x => decide (key x ∈ keys)).countP p := by
  induction keys with
  | nil => simp
  | cons k keys ih =>
      obtain ⟨hk, hnodup⟩ := List.nodup_cons.mp hnodup
      rw [List.map_cons, List.sum_cons, ih hnodup]
      clear ih
      induction l with
      | nil => rfl
      | cons x l ih =>
          simp only [List.mem_cons] at ih ⊢
          by_cases hx : key x = k
          · have hmem : key x ∉ keys := hx ▸ hk
            simp only [List.filter_cons, hx, decide_true, if_true, true_or, List.countP_cons]
            rw [← ih, ← hx, decide_eq_false hmem, if_neg Bool.false_ne_true]
            omega
          · simp only [List.filter_cons, hx, decide_false, false_or]
            by_cases hmem : key x ∈ keys
            · simp only [hmem, decide_true, if_true, List.countP_cons, ← ih]
              exact (Nat.add_assoc _ _ _).symm
            · simp only [hmem, decide_false]
              exact ih

section Group

variable [DecidableEq κ] (key : α → κ) {k k' : κ}

/-- The group of a key, when rows with that key are added. -/
theorem filter_key_append_self {new : List α} (h : ∀ x ∈ new, key x = k) :
    (l ++ new).filter (fun x => decide (key x = k))
      = l.filter (fun x => decide (key x = k)) ++ new := by
  rw [List.filter_append]
  exact congrArg _ (List.filter_eq_self.mpr fun x hx => decide_eq_true (h x hx))

/-- The group of a key, when rows with another key are added. -/
theorem filter_key_append {new : List α} (h : ∀ x ∈ new, key x = k) (hne : k' ≠ k) :
    (l ++ new).filter (fun x => decide (key x = k'))
      = l.filter fun x => decide (key x = k') :=
  filter_append fun x hx => decide_eq_false fun hk => hne (hk.symm.trans (h x hx))

/-- The group of a key, when it is rewritten. -/
theorem filter_key_update_self {f : α → α} (h : ∀ x, key x = k → key (f x) = k) :
    (l.map fun x => if key x = k then f x else x).filter (fun x => decide (key x = k))
      = (l.filter fun x => decide (key x = k)).map f := by
  induction l with
  | nil => rfl
  | cons x l ih =>
      by_cases hx : key x = k
      · have hfx : key (f x) = k := h x hx
        simp only [List.map_cons, List.filter_cons, hfx, hx, decide_true, if_true, ih]
      · simp only [List.map_cons, List.filter_cons, hx, decide_false,
          Bool.false_eq_true, if_false, ih]

/-- The group of a key, when that of another key is rewritten. -/
theorem filter_key_update {f : α → α} (h : ∀ x, key x = k → key (f x) = k) (hne : k' ≠ k) :
    (l.map fun x => if key x = k then f x else x).filter (fun x => decide (key x = k'))
      = l.filter fun x => decide (key x = k') := by
  refine filter_update fun x _ hx => ⟨decide_eq_false ?_, decide_eq_false ?_⟩
  · rw [hx]
    exact hne.symm
  · rw [h x hx]
    exact hne.symm

/-- The group of a key, when it is removed. -/
theorem filter_key_remove_self (l : List α) {q : α → Bool} (h : ∀ x, key x = k → q x = false) :
    (l.filter q).filter (fun x => decide (key x = k)) = [] := by
  rw [List.filter_eq_nil_iff]
  intro x hx hkey
  have hq := (List.mem_filter.mp hx).2
  rw [h x (of_decide_eq_true hkey)] at hq
  cases hq

/-- The group of a key, when rows with another key are removed. -/
theorem filter_key_remove {q : α → Bool} (h : ∀ x ∈ l, key x ≠ k → q x = true) (hne : k' ≠ k) :
    (l.filter q).filter (fun x => decide (key x = k'))
      = l.filter fun x => decide (key x = k') :=
  filter_filter fun x hx hkey => h x hx fun hk => hne ((of_decide_eq_true hkey).symm.trans hk)

end Group

/-- Under distinct keys there is one row to a key. This is what a primary key is for: who
has the key has the row. -/
theorem eq_of_key {key : α → κ} (hnodup : (l.map key).Nodup) {x y : α} (hx : x ∈ l) (hy : y ∈ l)
    (h : key x = key y) : x = y :=
  List.inj_on_of_nodup_map hnodup hx hy h

end Selection
