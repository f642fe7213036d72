/-
JSON values as the backend holds them: what `json.loads`, a JSONB column and a
pydantic `dict[str, Any]` give to Python code.

Numbers are Python numbers. A JSON integer is a Python `int`, of any size; a
number with a fraction or an exponent is a Python `float`, represented here by
the rational it stands for (JSON and JSONB have no infinities and no NaN). An
object is its list of members in insertion order.

Two equalities matter and they differ. `=` is identity of the value, decided by
`Json.beq`. `py_eq` is Python's `==`, which identifies `1`, `1.0` and `True` and
ignores the order of members; it is what the worker compares branch targets
with.
-/
import Mathlib.Data.Rat.Defs
import Mathlib.Data.List.Basic

set_option autoImplicit false

namespace EventFlow

/-- A JSON value. The constructors are the types that Python has for them. -/
inductive Json where
  | null
  | bool (b : Bool)
  | int (n : ℤ)
  | float (q : ℚ)
  | str (s : String)
  | arr (items : List Json)
  | obj (members : List (String × Json))

/-- A JSON object, a Python `dict[str, Any]`. Keys may repeat in the list; that a value
comes from a dict is said where it matters. -/
abbrev JsonObject := List (String × Json)

namespace Json

/-! ## Equality of values -/

mutual

/-- Identity of values. -/
def beq : Json → Json → Bool
  | .null, .null => true
  | .bool a, .bool b => a == b
  | .int a, .int b => a == b
  | .float a, .float b => a == b
  | .str a, .str b => a == b
  | .arr a, .arr b => beq_items a b
  | .obj a, .obj b => beq_members a b
  | _, _ => false

/-- Identity of arrays. -/
def beq_items : List Json → List Json → Bool
  | [], [] => true
  | a :: as, b :: bs => beq a b && beq_items as bs
  | _, _ => false

/-- Identity of member lists. -/
def beq_members : List (String × Json) → List (String × Json) → Bool
  | [], [] => true
  | (k, a) :: as, (l, b) :: bs => k == l && beq a b && beq_members as bs
  | _, _ => false

end

mutual

theorem eq_of_beq : ∀ a b : Json, beq a b = true → a = b
  | .null, b, h => by cases b <;> simp_all [beq]
  | .bool _, b, h => by cases b <;> simp_all [beq]
  | .int _, b, h => by cases b <;> simp_all [beq]
  | .float _, b, h => by cases b <;> simp_all [beq]
  | .str _, b, h => by cases b <;> simp_all [beq]
  | .arr as, b, h => by
      cases b with
      | arr bs => rw [eq_of_beq_items as bs (by simpa [beq] using h)]
      | _ => simp [beq] at h
  | .obj as, b, h => by
      cases b with
      | obj bs => rw [eq_of_beq_members as bs (by simpa [beq] using h)]
      | _ => simp [beq] at h

theorem eq_of_beq_items : ∀ as bs : List Json, beq_items as bs = true → as = bs
  | [], bs, h => by cases bs <;> simp_all [beq_items]
  | a :: as, bs, h => by
      cases bs with
      | nil => simp [beq_items] at h
      | cons b bs =>
          simp only [beq_items, Bool.and_eq_true] at h
          rw [eq_of_beq a b h.1, eq_of_beq_items as bs h.2]

theorem eq_of_beq_members :
    ∀ as bs : List (String × Json), beq_members as bs = true → as = bs
  | [], bs, h => by cases bs <;> simp_all [beq_members]
  | (k, a) :: as, bs, h => by
      cases bs with
      | nil => simp [beq_members] at h
      | cons b bs =>
          obtain ⟨l, b⟩ := b
          simp only [beq_members, Bool.and_eq_true, beq_iff_eq] at h
          rw [h.1.1, eq_of_beq a b h.1.2, eq_of_beq_members as bs h.2]

end

mutual

theorem beq_self : ∀ a : Json, beq a a = true
  | .null => rfl
  | .bool _ => by simp [beq]
  | .int _ => by simp [beq]
  | .float _ => by simp [beq]
  | .str _ => by simp [beq]
  | .arr as => by simpa [beq] using beq_items_self as
  | .obj as => by simpa [beq] using beq_members_self as

theorem beq_items_self : ∀ as : List Json, beq_items as as = true
  | [] => rfl
  | a :: as => by simp [beq_items, beq_self a, beq_items_self as]

theorem beq_members_self : ∀ as : List (String × Json), beq_members as as = true
  | [] => rfl
  | (_, a) :: as => by simp [beq_members, beq_self a, beq_members_self as]

end

instance : DecidableEq Json := fun a b =>
  decidable_of_iff (beq a b = true) ⟨eq_of_beq a b, fun h => h ▸ beq_self a⟩

/-! ## Python's view of a value -/

/-- The number a Python `bool`, `int` or `float` compares as. -/
def number? : Json → Option ℚ
  | .bool b => some (if b then 1 else 0)
  | .int n => some n
  | .float q => some q
  | _ => none

mutual

/-- Python's `==`. Lists are compared item by item, dicts regardless of order, and a
number is never equal to a string. -/
def py_eq : Json → Json → Bool
  | .null, .null => true
  | .str a, .str b => a == b
  | .arr a, .arr b => py_eq_items a b
  | .obj a, .obj b => a.length == b.length && py_eq_members a b
  | .bool a, b => number? b == some (if a then 1 else 0)
  | .int a, b => number? b == some (a : ℚ)
  | .float a, b => number? b == some a
  | _, _ => false

/-- Elementwise `==` of two lists. -/
def py_eq_items : List Json → List Json → Bool
  | [], [] => true
  | a :: as, b :: bs => py_eq a b && py_eq_items as bs
  | _, _ => false

/-- Every member of the first dict is, up to `==`, a member of the second. -/
def py_eq_members : List (String × Json) → List (String × Json) → Bool
  | [], _ => true
  | (k, a) :: as, bs =>
    (match bs.lookup k with
      | some b => py_eq a b
      | none => false) && py_eq_members as bs

end

@[simp] theorem py_eq_str (a b : String) : py_eq (.str a) (.str b) = (a == b) := by
  simp [py_eq]

/-- Truth of a value in an `if`. Zero, the empty string, list and dict, `False` and `None`
are false. -/
def truthy : Json → Bool
  | .null => false
  | .bool b => b
  | .int n => n != 0
  | .float q => q != 0
  | .str s => s != ""
  | .arr items => !items.isEmpty
  | .obj members => !members.isEmpty

/-- A nullable JSONB column read back: `None` or a dict, since the engine stores nothing
else there. -/
def of_payload : Option JsonObject → Json
  | none => .null
  | some o => .obj o

end Json

/-- `d.get(key)`: `None` when the key is missing. -/
def JsonObject.get (o : JsonObject) (key : String) : Json :=
  (o.lookup key).getD .null

/-- `o[key] = v`, and `{ ...o, [key]: v }`: a key that is there keeps its place. -/
def JsonObject.assign (o : JsonObject) (key : String) (v : Json) : JsonObject :=
  if (o.lookup key).isSome then o.map fun m => if m.1 = key then (key, v) else m
  else o ++ [(key, v)]

theorem lookup_assign_self (o : JsonObject) (key : String) (v : Json) :
    (JsonObject.assign o key v).lookup key = some v := by
  unfold JsonObject.assign
  split
  · rename_i hsome
    induction o with
    | nil => cases hsome
    | cons m o ih =>
        obtain ⟨k, w⟩ := m
        rw [List.map_cons]
        by_cases hk : k = key
        · subst hk
          rw [if_pos rfl, List.lookup_cons_self]
        · have hbeq : (key == k) = false := beq_false_of_ne fun h => hk h.symm
          rw [List.lookup_cons, hbeq] at hsome
          rw [if_neg hk, List.lookup_cons, hbeq]
          exact ih hsome
  · rename_i hnone
    rw [List.lookup_append, Option.not_isSome_iff_eq_none.mp hnone, List.lookup_cons_self]
    rfl

theorem lookup_assign_of_ne (o : JsonObject) {key key' : String} (v : Json) (hne : key' ≠ key) :
    (JsonObject.assign o key v).lookup key' = o.lookup key' := by
  have hbeq : (key' == key) = false := beq_false_of_ne hne
  have hmap : ∀ l : JsonObject,
      (l.map fun m => if m.1 = key then (key, v) else m).lookup key' = l.lookup key' := by
    intro l
    induction l with
    | nil => rfl
    | cons m l ih =>
        obtain ⟨k, w⟩ := m
        rw [List.map_cons]
        by_cases hk : k = key
        · subst hk
          rw [if_pos rfl, List.lookup_cons, List.lookup_cons, hbeq]
          exact ih
        · rw [if_neg hk, List.lookup_cons, List.lookup_cons, ih]
  unfold JsonObject.assign
  split
  · exact hmap o
  · rw [List.lookup_append, List.lookup_cons, hbeq]
    exact Option.or_none

end EventFlow
