/-
`google.protobuf.Struct` as the transport uses it.

The package is not part of the repository, so it is a parameter: [`Protobuf`]
is what the code calls, [`Protobuf.Laws`] what it relies on. A `Struct` has one
kind of number, the IEEE double; `update` converts integers and raises
`OverflowError` on those that are too large; `MessageToDict` gives back what was
stored; `items()` gives scalars as they are and nested objects and arrays as
`Struct` and `ListValue` messages, which are not JSON values. A `Struct` is a
map, so nothing is said about the order of members, and `==` of dicts does not
see it either.

[`Json.py_eq_stored`] is the fact about payloads that everything else uses: what
a `Struct` stores is `==` to the object if and only if every integer in it, at
any depth, is a double.
-/
import EventFlow.Schema
import EventFlow.Library.BinaryFloat

set_option autoImplicit false

namespace EventFlow

open BinaryFloat

namespace Json

/-! ## Numbers as doubles -/

mutual

/-- A value with its integers converted, `none` if one is too large. Inside of arrays and
objects as well, since all numbers of a `Struct` are doubles. -/
def stored : Json → Option Json
  | .int n => (binary64.of_int n).map fun m : ℤ => .float m
  | .arr items => (stored_items items).map .arr
  | .obj members => (stored_members members).map .obj
  | v => some v

def stored_items : List Json → Option (List Json)
  | [] => some []
  | v :: vs => (stored v).bind fun w => (stored_items vs).map fun ws => w :: ws

def stored_members : List (String × Json) → Option (List (String × Json))
  | [] => some []
  | (k, v) :: vs => (stored v).bind fun w => (stored_members vs).map fun ws => (k, w) :: ws

end

mutual

/-- Every integer in the value is a double. Floats are, anyway. -/
def Exact : Json → Prop
  | .int n => binary64.Exact n
  | .arr items => ExactItems items
  | .obj members => ExactMembers members
  | _ => True

def ExactItems : List Json → Prop
  | [] => True
  | v :: vs => Exact v ∧ ExactItems vs

def ExactMembers : List (String × Json) → Prop
  | [] => True
  | (_, v) :: vs => Exact v ∧ ExactMembers vs

end

mutual

/-- Objects have distinct keys, as dicts do. -/
def Distinct : Json → Prop
  | .arr items => DistinctItems items
  | .obj members => (members.map Prod.fst).Nodup ∧ DistinctMembers members
  | _ => True

def DistinctItems : List Json → Prop
  | [] => True
  | v :: vs => Distinct v ∧ DistinctItems vs

def DistinctMembers : List (String × Json) → Prop
  | [] => True
  | (_, v) :: vs => Distinct v ∧ DistinctMembers vs

end

theorem length_stored_members {vs ws : List (String × Json)} (h : stored_members vs = some ws) :
    ws.length = vs.length := by
  induction vs generalizing ws with
  | nil =>
      cases h
      rfl
  | cons p vs ih =>
      obtain ⟨k, v⟩ := p
      obtain ⟨w, -, h⟩ := Option.bind_eq_some_iff.mp h
      obtain ⟨ws, hws, rfl⟩ := Option.map_eq_some_iff.mp h
      rw [List.length_cons, List.length_cons, ih hws]

/-- A member of a dict is found under its key. -/
theorem lookup_of_mem {k : String} {v : Json} {members : List (String × Json)}
    (hnodup : (members.map Prod.fst).Nodup) (h : (k, v) ∈ members) :
    members.lookup k = some v := by
  induction members with
  | nil => cases h
  | cons p members ih =>
      obtain ⟨l, w⟩ := p
      rw [List.map_cons, List.nodup_cons] at hnodup
      rw [List.lookup_cons]
      rcases List.mem_cons.mp h with heq | hmem
      · cases heq
        rw [beq_self_eq_true]
      · have hne : k ≠ l := by
          rintro rfl
          exact hnodup.1 (List.mem_map.mpr ⟨(k, v), hmem, rfl⟩)
        rw [beq_false_of_ne hne]
        exact ih hnodup.2 hmem

mutual

/-- Exact values can be stored. -/
theorem stored_of_exact : ∀ v : Json, v.Exact → ∃ w, stored v = some w
  | .null, _ => ⟨_, rfl⟩
  | .bool _, _ => ⟨_, rfl⟩
  | .float _, _ => ⟨_, rfl⟩
  | .str _, _ => ⟨_, rfl⟩
  | .int n, h => by
      rw [stored, (Format.of_int_eq_self_iff n).mpr h]
      exact ⟨_, rfl⟩
  | .arr items, h => by
      obtain ⟨ws, hws⟩ := stored_items_of_exact items h
      rw [stored, hws]
      exact ⟨_, rfl⟩
  | .obj members, h => by
      obtain ⟨ws, hws⟩ := stored_members_of_exact members h
      rw [stored, hws]
      exact ⟨_, rfl⟩

theorem stored_items_of_exact : ∀ vs : List Json, ExactItems vs → ∃ ws, stored_items vs = some ws
  | [], _ => ⟨_, rfl⟩
  | v :: vs, h => by
      obtain ⟨w, hw⟩ := stored_of_exact v h.1
      obtain ⟨ws, hws⟩ := stored_items_of_exact vs h.2
      rw [stored_items, hw, hws]
      exact ⟨_, rfl⟩

theorem stored_members_of_exact : ∀ vs : List (String × Json), ExactMembers vs →
    ∃ ws, stored_members vs = some ws
  | [], _ => ⟨_, rfl⟩
  | (_, v) :: vs, h => by
      obtain ⟨w, hw⟩ := stored_of_exact v h.1
      obtain ⟨ws, hws⟩ := stored_members_of_exact vs h.2
      rw [stored_members, hw, hws]
      exact ⟨_, rfl⟩

end

/-! ## What is stored, compared with `==` -/

mutual

/-- **A stored value is `==` to the original if and only if every integer in it is a
double.** Storing a value changes its integers into floats and nothing else. Python
compares an `int` with a `float` by value, so a member is equal if its integer is a
double; booleans stay booleans. -/
theorem py_eq_stored : ∀ v w : Json, stored v = some w → v.Distinct →
    (py_eq w v = true ↔ v.Exact)
  | .null, w, h, _ => by
      cases h
      exact iff_of_true rfl trivial
  | .bool b, w, h, _ => by
      cases h
      refine iff_of_true ?_ trivial
      rw [py_eq]
      exact beq_self_eq_true _
  | .float q, w, h, _ => by
      cases h
      refine iff_of_true ?_ trivial
      rw [py_eq]
      exact beq_self_eq_true _
  | .str s, w, h, _ => by
      cases h
      refine iff_of_true ?_ trivial
      rw [py_eq_str]
      exact beq_self_eq_true _
  | .int n, w, h, _ => by
      obtain ⟨m, hm, rfl⟩ := Option.map_eq_some_iff.mp h
      rw [Exact, ← Format.of_int_eq_self_iff, hm, Option.some.injEq, py_eq, number?, beq_iff_eq,
        Option.some.injEq]
      exact ⟨fun h => (Int.cast_injective h).symm, fun h => by rw [h]⟩
  | .arr items, w, h, hd => by
      obtain ⟨ws, hws, rfl⟩ := Option.map_eq_some_iff.mp h
      rw [py_eq]
      exact py_eq_items_stored items ws hws hd
  | .obj members, w, h, hd => by
      obtain ⟨ws, hws, rfl⟩ := Option.map_eq_some_iff.mp h
      rw [py_eq, length_stored_members hws, beq_self_eq_true, Bool.true_and]
      exact py_eq_members_stored members ws members hws hd.2 fun k v hmem =>
        lookup_of_mem hd.1 hmem

theorem py_eq_items_stored : ∀ vs ws : List Json, stored_items vs = some ws →
    DistinctItems vs → (py_eq_items ws vs = true ↔ ExactItems vs)
  | [], ws, h, _ => by
      cases h
      exact iff_of_true rfl trivial
  | v :: vs, ws, h, hd => by
      obtain ⟨w, hw, h⟩ := Option.bind_eq_some_iff.mp h
      obtain ⟨ws, hws, rfl⟩ := Option.map_eq_some_iff.mp h
      rw [py_eq_items, Bool.and_eq_true, py_eq_stored v w hw hd.1,
        py_eq_items_stored vs ws hws hd.2]
      exact Iff.rfl

-- `all` is the dict the members are looked up in; the induction goes over a part of it
theorem py_eq_members_stored : ∀ vs ws all : List (String × Json),
    stored_members vs = some ws → DistinctMembers vs →
    (∀ k v, (k, v) ∈ vs → all.lookup k = some v) →
    (py_eq_members ws all = true ↔ ExactMembers vs)
  | [], ws, all, h, _, _ => by
      cases h
      exact iff_of_true rfl trivial
  | (k, v) :: vs, ws, all, h, hd, hall => by
      obtain ⟨w, hw, h⟩ := Option.bind_eq_some_iff.mp h
      obtain ⟨ws, hws, rfl⟩ := Option.map_eq_some_iff.mp h
      rw [py_eq_members, hall k v List.mem_cons_self, Bool.and_eq_true, py_eq_stored v w hw hd.1,
        py_eq_members_stored vs ws all hws hd.2 fun l u hmem =>
          hall l u (List.mem_cons_of_mem _ hmem)]
      exact Iff.rfl

end

end Json

/-! ## The package -/

/-- The `grpc.StatusCode`s the server sets. -/
inductive StatusCode where
  | NOT_FOUND | INTERNAL
deriving DecidableEq, Repr

/-- What leaves a client method, or the servicer, as an exception. -/
inductive TransportError where
  /-- An exception of the engine. -/
  | engine (error : PyError)
  /-- The database driver refuses a value. -/
  | data_error
  | overflow_error
  | value_error
  /-- `grpc.aio.AioRpcError`. -/
  | rpc (code : StatusCode)

/-- A value in a dict that the server has taken out of a `Struct`. -/
inductive PyValue where
  /-- A JSON value. -/
  | plain (v : Json)
  /-- A `Struct` or a `ListValue`. -/
  | message

/-- What `items()` gives for a stored value. A message is not JSON, so nothing more has to
be known of it. -/
def PyValue.of_stored : Json → PyValue
  | .arr _ => .message
  | .obj _ => .message
  | v => .plain v

/-- What the transport calls. -/
structure Protobuf where
  /-- `Struct`. -/
  Struct : Type
  /-- `s = Struct(); s.update(payload)`. -/
  update : JsonObject → Except TransportError Struct
  /-- `MessageToDict(s)`. -/
  MessageToDict : Struct → JsonObject
  /-- `s.items()`. -/
  items : Struct → List (String × PyValue)

/-- What the transport relies on. Each is documented behaviour of the package; none of
them speaks of the engine. -/
structure Protobuf.Laws (P : Protobuf) : Prop where
  /-- An integer that is too large for a double is refused. -/
  overflow : ∀ o, Json.stored_members o = none → P.update o = .error .overflow_error
  /-- Everything else is stored, numbers as doubles. -/
  update : ∀ o o', Json.stored_members o = some o' → ∃ s, P.update o = .ok s
  /-- `MessageToDict` inverts `update`: `==` cannot tell the result from what was
  stored. -/
  MessageToDict : ∀ o o' s, Json.stored_members o = some o' → P.update o = .ok s →
    ∀ v, Json.py_eq (.obj (P.MessageToDict s)) v = Json.py_eq (.obj o') v
  /-- The members, in some order. -/
  items : ∀ o o' s, Json.stored_members o = some o' → P.update o = .ok s →
    (P.items s).Perm (o'.map fun p => (p.1, PyValue.of_stored p.2))

/-- A `Struct` represented by the object it stores. It shows that the laws can be met, and
it is what the examples run on. -/
def struct_pb2 : Protobuf where
  Struct := JsonObject
  update := fun o =>
    match Json.stored_members o with
    | some o' => .ok o'
    | none => .error .overflow_error
  MessageToDict := fun s => s
  items := fun s => s.map fun p => (p.1, PyValue.of_stored p.2)

theorem struct_pb2_laws : struct_pb2.Laws where
  overflow := fun o h => by
    show (match Json.stored_members o with | some o' => _ | none => _) = _
    rw [h]
    rfl
  update := fun o o' h => ⟨o', by
    show (match Json.stored_members o with | some o' => _ | none => _) = _
    rw [h]
    rfl⟩
  MessageToDict := fun o o' s h hs v => by
    change (match Json.stored_members o with | some o' => _ | none => _) = _ at hs
    rw [h] at hs
    cases hs
    rfl
  items := fun o o' s h hs => by
    change (match Json.stored_members o with | some o' => _ | none => _) = _ at hs
    rw [h] at hs
    cases hs
    exact .refl _

end EventFlow
