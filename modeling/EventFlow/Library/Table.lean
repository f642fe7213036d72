/-
A table of rows under a unique key, as a query for the rows of one owner
returns it: the keys in order, and the row stored under each key.

Lookups by key that may miss (`get?`), updates of one row by key (`set`) and
the list of all rows (`all`). An update by key never adds or removes a row, so
`keys` is the same through a whole transaction and every statement about a
table can be made key by key.
-/
import Mathlib.Data.List.Basic

set_option autoImplicit false

/-- Rows under a unique key. `row` says something of keys that are not there too, but
nothing that is read: `get?` looks at the keys first. -/
structure Table (κ ρ : Type*) where
  keys : List κ
  row : κ → ρ

namespace Table

variable {κ ρ : Type*} [DecidableEq κ]

/-- The row under `k`, if there is one. -/
def get? (t : Table κ ρ) (k : κ) : Option ρ :=
  if k ∈ t.keys then some (t.row k) else none

/-- Update of the row under `k` by primary key. The keys stay, so an update of a row that
is not there does nothing that is seen. -/
def set (t : Table κ ρ) (k : κ) (r : ρ) : Table κ ρ :=
  { t with row := fun j => if j = k then r else t.row j }

omit [DecidableEq κ] in
/-- All rows, in key order. -/
def all (t : Table κ ρ) : List ρ := t.keys.map t.row

@[simp] theorem keys_set (t : Table κ ρ) (k : κ) (r : ρ) : (t.set k r).keys = t.keys := rfl

@[simp] theorem row_set_self (t : Table κ ρ) (k : κ) (r : ρ) : (t.set k r).row k = r :=
  if_pos rfl

theorem row_set_of_ne (t : Table κ ρ) {j k : κ} (r : ρ) (h : j ≠ k) :
    (t.set k r).row j = t.row j := if_neg h

/-- What holds of the new row and of the row that was there holds after an
update. -/
theorem row_set_of {t : Table κ ρ} {j k : κ} {r : ρ} (P : ρ → Prop) (hnew : P r)
    (hold : P (t.row j)) : P ((t.set k r).row j) := by
  by_cases hjk : j = k
  · rw [hjk, row_set_self]
    exact hnew
  · rw [row_set_of_ne t r hjk]
    exact hold

/-- The last of two updates of one row stays. -/
@[simp] theorem set_set (t : Table κ ρ) (k : κ) (r r' : ρ) :
    (t.set k r).set k r' = t.set k r' := by
  simp only [set, Table.mk.injEq, true_and]
  funext j
  split <;> rfl

/-- Writing a row back changes nothing. -/
theorem set_row (t : Table κ ρ) (k : κ) : t.set k (t.row k) = t := by
  simp only [set]
  congr 1
  funext j
  split
  · rename_i h
    rw [h]
  · rfl

theorem get?_set_self {t : Table κ ρ} {k : κ} (r : ρ) (h : k ∈ t.keys) :
    (t.set k r).get? k = some r := by
  rw [get?, keys_set, if_pos h, row_set_self]

theorem get?_eq_some_iff {t : Table κ ρ} {k : κ} {r : ρ} :
    t.get? k = some r ↔ k ∈ t.keys ∧ t.row k = r := by
  unfold get?
  split <;> simp_all

theorem get?_eq_none_iff {t : Table κ ρ} {k : κ} : t.get? k = none ↔ k ∉ t.keys := by
  unfold get?
  split <;> simp_all

theorem get?_of_mem {t : Table κ ρ} {k : κ} (h : k ∈ t.keys) : t.get? k = some (t.row k) :=
  if_pos h

omit [DecidableEq κ] in
theorem mem_all {t : Table κ ρ} {r : ρ} : r ∈ t.all ↔ ∃ k ∈ t.keys, t.row k = r :=
  List.mem_map

end Table
