/-
What depends on the transport.

The two clients of `Clients.lean` are meant to be interchangeable. They are not,
for four reasons. The server decodes the payload of `StartExecution` with
`dict(request.input_payload.items())`, which leaves `Struct` and `ListValue`
messages inside, where everything else uses `MessageToDict`
([`starts_alike_iff`]). Client and server re-interpret the arguments of
`list_executions`: an empty status is left out and a limit of 0 becomes 50
([`lists_alike_iff`]). Responses lose empty objects and empty strings
(`Contracts.lean`). And the client never raises an `AppError`, since the
servicer reports every exception as INTERNAL ([`fails_alike_iff`]).

Each theorem says exactly when a call does not depend on the transport.
-/
import EventFlow.Clients
import EventFlow.Safety

set_option autoImplicit false

namespace EventFlow

open BinaryFloat

/-! ## Starting -/

/-- Neither an object nor an array. -/
def Json.scalar : Json → Bool
  | .arr _ => false
  | .obj _ => false
  | _ => true

/-- No value of the object is an object or an array. -/
def Flat (payload : JsonObject) : Prop := ∀ p ∈ payload, p.2.scalar = true

/-- A dict that is, as JSON, `==` to `payload`. -/
def PyDict.Carries (d : PyDict) (payload : JsonObject) : Prop :=
  ∃ o, d.json? = some o ∧ Json.py_eq (.obj o) (.obj payload) = true

/-- The integers of the object whose double, written to a JSONB column, is read back as
the integer again. Below `10 ^ 16` all doubles are; from there on `repr` may have found a
shorter decimal. -/
def PrintsIntegers (payload : JsonObject) : Prop :=
  ∀ k n, (k, Json.int n) ∈ payload →
    n.natAbs < 10 ^ 16 ∨ binary64.shortest n.natAbs = n.natAbs

section Items

variable {P : Protobuf}

theorem PyValue.of_stored_of_scalar {v : Json} (h : v.scalar = true) :
    PyValue.of_stored v = .plain v := by
  cases v <;> first | rfl | cases h

theorem Json.scalar_of_json? {v : Json} (h : (PyValue.of_stored v).json?.isSome = true) :
    v.scalar = true := by
  cases v <;> first | rfl | cases h

/-- Storing changes numbers, not shapes. -/
theorem Json.scalar_stored {v w : Json} (h : v.stored = some w) : w.scalar = v.scalar := by
  cases v with
  | int n =>
      obtain ⟨m, -, rfl⟩ := Option.map_eq_some_iff.mp h
      rfl
  | arr items =>
      obtain ⟨ws, -, rfl⟩ := Option.map_eq_some_iff.mp h
      rfl
  | obj members =>
      obtain ⟨ws, -, rfl⟩ := Option.map_eq_some_iff.mp h
      rfl
  | null => cases h; rfl
  | bool b => cases h; rfl
  | float q => cases h; rfl
  | str s => cases h; rfl

theorem flat_stored_iff {o o' : JsonObject} (h : Json.stored_members o = some o') :
    Flat o' ↔ Flat o := by
  induction o generalizing o' with
  | nil =>
      cases h
      exact Iff.rfl
  | cons p o ih =>
      obtain ⟨k, v⟩ := p
      obtain ⟨w, hw, h⟩ := Option.bind_eq_some_iff.mp h
      obtain ⟨ws, hws, rfl⟩ := Option.map_eq_some_iff.mp h
      unfold Flat at ih ⊢
      rw [List.forall_mem_cons, List.forall_mem_cons, Json.scalar_stored hw, ih hws]

/-- `==` does not see the order of members. -/
theorem Json.py_eq_members_eq_all (as bs : List (String × Json)) :
    Json.py_eq_members as bs = as.all fun p =>
      match bs.lookup p.1 with
      | some b => Json.py_eq p.2 b
      | none => false := by
  induction as with
  | nil => rfl
  | cons p as ih =>
      obtain ⟨k, a⟩ := p
      refine (Json.py_eq_members.eq_2 bs k a as).trans ?_
      rw [List.all_cons]
      exact congrArg _ ih

theorem Json.py_eq_obj_perm {as as' : List (String × Json)} (h : as.Perm as') (bs : JsonObject) :
    Json.py_eq (.obj as) (.obj bs) = Json.py_eq (.obj as') (.obj bs) := by
  rw [Json.py_eq, Json.py_eq, h.length_eq, Json.py_eq_members_eq_all, Json.py_eq_members_eq_all,
    h.all_eq]

theorem PyDict.json_plain (o : JsonObject) :
    PyDict.json? (o.map fun p => (p.1, .plain p.2)) = some o := by
  unfold PyDict.json?
  rw [if_pos, List.filterMap_map]
  · exact congrArg some (List.filterMap_some)
  · simp [PyValue.json?]

/-- What the server takes out of a `Struct` is JSON if and only if the payload was flat,
and then it is what was stored. `items()` gives a nested object as a message, which is not
JSON, and a scalar as it is. -/
theorem Protobuf.Laws.json_items (hP : P.Laws) {o o' : JsonObject} {s : P.Struct}
    (ho : Json.stored_members o = some o') (hs : P.update o = .ok s) :
    (Flat o → ∃ l, PyDict.json? (P.items s) = some l ∧ l.Perm o') ∧
      (¬ Flat o → PyDict.json? (P.items s) = none) := by
  have hperm := hP.items o o' s ho hs
  have hall : ((P.items s).all fun p => p.2.json?.isSome) = true ↔ Flat o := by
    rw [hperm.all_eq, List.all_map, ← flat_stored_iff ho, List.all_eq_true]
    refine forall₂_congr fun p _ => ?_
    constructor
    · exact Json.scalar_of_json?
    · intro hp
      show (PyValue.of_stored p.2).json?.isSome = true
      rw [PyValue.of_stored_of_scalar hp]
      rfl
  constructor
  · intro hflat
    refine ⟨_, if_pos (hall.mpr hflat), ?_⟩
    have hfilter := hperm.filterMap fun p : String × PyValue => p.2.json?.map (p.1, ·)
    rw [List.filterMap_map] at hfilter
    refine hfilter.trans (List.Perm.of_eq ?_)
    -- a scalar is given as it is stored
    have hid : ∀ p ∈ o', ((fun p : String × PyValue => p.2.json?.map (p.1, ·)) ∘
        fun p : String × Json => (p.1, PyValue.of_stored p.2)) p = some p := by
      intro p hp
      have hscalar := (flat_stored_iff ho).mpr hflat p hp
      simp only [Function.comp_apply, PyValue.of_stored_of_scalar hscalar]
      rfl
    rw [List.filterMap_congr hid, List.filterMap_some]
  · intro hflat
    exact if_neg fun h => hflat (hall.mp h)

end Items

/-- The command that reaches the engine through the gRPC client. -/
def grpc_command (P : Protobuf) (vid : ℕ) (payload : JsonObject) (owner : ℕ) :
    Except TransportError StartExecutionCommand :=
  (GrpcExecutionEngineClient.start_request P vid payload owner).map
    (ExecutionEngineServiceServicer.command P)

/-- `Execution.input_payload` of the execution a call has persisted. -/
def persisted (e : ℕ) : Except TransportError (Database × Option ExecutionDTO) →
    Option (Option JsonObject)
  | .ok (db, _) => some (db.executions.row e).rows.execution.input_payload
  | .error _ => none

/-- Both persist, and `==` payloads, or neither does. -/
def same_or_neither : Option (Option JsonObject) → Option (Option JsonObject) → Prop
  | none, none => True
  | some a, some b => payload_eq a b
  | _, _ => False

/-- A payload arrives as it was sent. -/
structure StartsAlike (P : Protobuf) (payload : JsonObject) : Prop where
  command : ∀ vid owner, ∃ command, grpc_command P vid payload owner = .ok command ∧
    command.workflow_version_id = vid ∧ command.input_payload.Carries payload
  persisted : ∀ env db vid owner e now node_pk, same_or_neither
    (EventFlow.persisted e ((grpc_command P vid payload owner).bind fun command =>
      ExecutionEngine.start_execution env db command owner e now node_pk))
    (EventFlow.persisted e (ExecutionEngine.start_execution env db
      (LocalExecutionEngineClient.command vid payload) owner e now node_pk))

section Start

variable {P : Protobuf} {payload : JsonObject}

/-- What the engine persists of a command that it can store. -/
theorem persisted_start (env : Env) (db : Database) (owner e now : ℕ) (node_pk : String → ℕ)
    {command : StartExecutionCommand} {o : JsonObject}
    (h : command.input_payload.json? = some o) :
    persisted e (ExecutionEngine.start_execution env db command owner e now node_pk)
        = some (some (Json.jsonb_members o)) ∧ Startable env command.workflow_version_id owner ∨
    persisted e (ExecutionEngine.start_execution env db command owner e now node_pk) = none ∧
      ¬ Startable env command.workflow_version_id owner := by
  unfold ExecutionEngine.start_execution PyDict.jsonb
  rw [h, Option.map_some]
  cases hstart : start_execution env command.workflow_version_id (some (Json.jsonb_members o))
      owner e now with
  | error err =>
      refine .inr ⟨rfl, fun hstartable => ?_⟩
      obtain ⟨s, pubs, hok⟩ := start_execution_ok_iff.mpr hstartable
      rw [hstart] at hok
      cases hok
  | ok p =>
      obtain ⟨session, pubs⟩ := p
      refine .inl ⟨?_, start_execution_ok_iff.mp ⟨session, pubs, hstart⟩⟩
      obtain ⟨-, -, -, -, -, -, -, -, hinput, -⟩ := start_execution_spec hstart
      show some ((Function.update db.executions.row e _ e).rows.execution.input_payload) = _
      rw [Function.update_self]
      exact congrArg some hinput

/-- The dict that arrives, for a payload that is not empty. -/
theorem grpc_command_cons (P : Protobuf) (vid owner : ℕ) (m : String × Json) (ms : JsonObject) :
    grpc_command P vid (m :: ms) owner = (P.update (m :: ms)).map fun s =>
      { workflow_version_id := vid, input_payload := P.items s } := by
  have hfield : struct_field P (some (m :: ms)) = (P.update (m :: ms)).map some := rfl
  unfold grpc_command GrpcExecutionEngineClient.start_request
  rw [hfield]
  cases P.update (m :: ms) with
  | error err => rfl
  | ok s => rfl

/-- **The command carries the payload if and only if the payload is flat and its integers
are doubles.** The empty payload is not sent, and arrives as an empty dict. For any other
the dict is what the `Struct` has stored, so it is JSON if and only if the payload is
flat, and `==` to it if and only if the integers are doubles. -/
theorem grpc_command_carries_iff (hP : P.Laws) (hd : (Json.obj payload).Distinct)
    (vid owner : ℕ) :
    (∃ command, grpc_command P vid payload owner = .ok command ∧
      command.workflow_version_id = vid ∧ command.input_payload.Carries payload) ↔
      Flat payload ∧ (Json.obj payload).Exact := by
  match payload with
  | [] => exact iff_of_true ⟨⟨vid, []⟩, rfl, rfl, [], rfl, rfl⟩ ⟨nofun, trivial⟩
  | m :: ms =>
      rw [grpc_command_cons]
      have hstored : ∀ o', Json.stored_members (m :: ms) = some o' →
          Json.stored (.obj (m :: ms)) = some (.obj o') := by
        intro o' ho
        rw [Json.stored, ho]
        rfl
      constructor
      · rintro ⟨command, hcommand, -, o, ho, heq⟩
        cases hs : P.update (m :: ms) with
        | error err =>
            rw [hs] at hcommand
            cases hcommand
        | ok s =>
            rw [hs] at hcommand
            cases hcommand
            cases ho' : Json.stored_members (m :: ms) with
            | none =>
                rw [hP.overflow _ ho'] at hs
                cases hs
            | some o' =>
                obtain ⟨hflat, hnot⟩ := hP.json_items ho' hs
                by_cases hf : Flat (m :: ms)
                · obtain ⟨l, hl, hperm⟩ := hflat hf
                  rw [ho, Option.some.injEq] at hl
                  subst hl
                  rw [Json.py_eq_obj_perm hperm] at heq
                  exact ⟨hf, (Json.py_eq_stored _ _ (hstored o' ho') hd).mp heq⟩
                · -- a `Struct` among the values is not JSON
                  rw [hnot hf] at ho
                  cases ho
      · rintro ⟨hf, hexact⟩
        obtain ⟨o', ho'⟩ := Json.stored_members_of_exact _ hexact
        obtain ⟨s, hs⟩ := hP.update _ _ ho'
        obtain ⟨l, hl, hperm⟩ := (hP.json_items ho' hs).1 hf
        refine ⟨⟨vid, P.items s⟩, ?_, rfl, l, hl, ?_⟩
        · rw [hs]
          rfl
        · rw [Json.py_eq_obj_perm hperm]
          exact (Json.py_eq_stored _ _ (hstored o' ho') hd).mpr hexact

/-! What the two paths have in the column can differ even where the commands agree: the
one has written an integer, the other its double. -/

/-- The double of an integer, written and read back. -/
theorem Json.jsonb_float_int (n : ℤ) : Json.jsonb_float n
    = if n.natAbs < 10 ^ 16 then .float n else .int (n.sign * binary64.shortest n.natAbs) := by
  have hlt : |(n : ℚ)| < 10 ^ 16 ↔ n.natAbs < 10 ^ 16 := by
    rw [← Int.cast_abs, Int.abs_eq_natAbs]
    norm_cast
  unfold Json.jsonb_float
  rw [Rat.num_intCast, Rat.den_intCast, Nat.div_one]
  simp only [hlt]

/-- **A scalar comes out of the column as it does on the direct path** if and only if it is
no integer, or one that its double is printed as. -/
theorem Json.py_eq_jsonb_stored {v w : Json} (h : v.stored = some w) (hscalar : v.scalar = true)
    (hexact : v.Exact) : Json.py_eq w.jsonb v.jsonb = true ↔
      ∀ n, v = .int n → n.natAbs < 10 ^ 16 ∨ binary64.shortest n.natAbs = n.natAbs := by
  cases v with
  | int n =>
      rw [Json.stored, (Format.of_int_eq_self_iff n).mpr hexact] at h
      cases h
      rw [Json.jsonb_int, Json.jsonb, Json.jsonb_float_int]
      have hself : (∀ m, Json.int n = .int m → m.natAbs < 10 ^ 16 ∨
          binary64.shortest m.natAbs = m.natAbs) ↔
          n.natAbs < 10 ^ 16 ∨ binary64.shortest n.natAbs = n.natAbs :=
        ⟨fun hall => hall n rfl, fun hn m hm => Json.int.inj hm ▸ hn⟩
      rw [hself]
      split
      · rename_i hlt
        refine iff_of_true ?_ (.inl hlt)
        rw [Json.py_eq, Json.number?, beq_self_eq_true]
      · -- both are integers of the sign of `n`, so their magnitudes decide
        rename_i hge
        have hne : n ≠ 0 := by
          rintro rfl
          exact hge (by decide)
        rw [or_iff_right hge, Json.py_eq, Json.number?, beq_iff_eq, Option.some.injEq,
          Int.cast_inj]
        constructor
        · intro heq
          have habs := congrArg Int.natAbs heq
          rwa [Int.natAbs_mul, Int.natAbs_sign_of_ne_zero hne, Nat.one_mul, Int.natAbs_natCast,
            eq_comm] at habs
        · intro heq
          rw [heq, Int.sign_mul_natAbs]
  | arr items => cases hscalar
  | obj members => cases hscalar
  | null =>
      cases h
      exact iff_of_true rfl fun n hn => by cases hn
  | bool b =>
      cases h
      refine iff_of_true ?_ fun n hn => by cases hn
      rw [Json.jsonb_bool, Json.py_eq]
      exact beq_self_eq_true _
  | float q =>
      cases h
      refine iff_of_true ?_ fun n hn => by cases hn
      rw [Json.jsonb, Json.jsonb_float]
      split <;> rw [Json.py_eq] <;> exact beq_self_eq_true _
  | str t =>
      cases h
      refine iff_of_true ?_ fun n hn => by cases hn
      rw [Json.jsonb_str, Json.py_eq_str]
      exact beq_self_eq_true _

theorem Json.lookup_jsonb_members (k : String) (vs : List (String × Json)) :
    (Json.jsonb_members vs).lookup k = (vs.lookup k).map Json.jsonb := by
  induction vs with
  | nil => rfl
  | cons p vs ih =>
      obtain ⟨l, v⟩ := p
      rw [Json.jsonb_members, List.lookup_cons, List.lookup_cons]
      cases k == l
      · exact ih
      · rfl

theorem Json.jsonb_members_eq_map (vs : List (String × Json)) :
    Json.jsonb_members vs = vs.map fun p => (p.1, p.2.jsonb) := by
  induction vs with
  | nil => rfl
  | cons p vs ih => rw [Json.jsonb_members, ih, List.map_cons]

-- as in `py_eq_members_stored`, `all` is the whole dict and the induction goes over a part
theorem Json.py_eq_jsonb_members_stored {all : List (String × Json)} : ∀ {vs ws : JsonObject},
    Json.stored_members vs = some ws → Flat vs → Json.ExactMembers vs →
    (∀ k v, (k, v) ∈ vs → all.lookup k = some v) →
    (Json.py_eq_members (Json.jsonb_members ws) (Json.jsonb_members all) = true ↔
      PrintsIntegers vs)
  | [], ws, h, _, _, _ => by
      cases h
      exact iff_of_true rfl nofun
  | (k, v) :: vs, ws, h, hflat, hexact, hall => by
      obtain ⟨w, hw, h⟩ := Option.bind_eq_some_iff.mp h
      obtain ⟨ws, hws, rfl⟩ := Option.map_eq_some_iff.mp h
      unfold Flat at hflat
      rw [List.forall_mem_cons] at hflat
      rw [Json.jsonb_members, Json.py_eq_members, Json.lookup_jsonb_members,
        hall k v List.mem_cons_self, Option.map_some, Bool.and_eq_true,
        Json.py_eq_jsonb_stored hw hflat.1 hexact.1,
        Json.py_eq_jsonb_members_stored hws hflat.2 hexact.2 fun l u hmem =>
          hall l u (List.mem_cons_of_mem _ hmem)]
      constructor
      · rintro ⟨hv, hvs⟩ l n hmem
        rcases List.mem_cons.mp hmem with heq | hmem
        · exact hv n (congrArg Prod.snd heq).symm
        · exact hvs l n hmem
      · intro hprints
        exact ⟨fun n hn => hprints k n (hn ▸ List.mem_cons_self),
          fun l n hmem => hprints l n (List.mem_cons_of_mem _ hmem)⟩

/-- What the two paths persist of a payload that has arrived. The order of the members is
not seen by `==`, so the dict that the server has put together stands for what was stored
in the `Struct`. -/
theorem payload_eq_jsonb_iff {o' l : JsonObject} (ho : Json.stored_members payload = some o')
    (hperm : l.Perm o') (hd : (Json.obj payload).Distinct) (hflat : Flat payload)
    (hexact : (Json.obj payload).Exact) :
    payload_eq (some (Json.jsonb_members l)) (some (Json.jsonb_members payload)) ↔
      PrintsIntegers payload := by
  have hperm' : (Json.jsonb_members l).Perm (Json.jsonb_members o') := by
    rw [Json.jsonb_members_eq_map, Json.jsonb_members_eq_map]
    exact hperm.map _
  have hlength : (Json.jsonb_members o').length = (Json.jsonb_members payload).length := by
    rw [Json.jsonb_members_eq_map, Json.jsonb_members_eq_map, List.length_map, List.length_map,
      Json.length_stored_members ho]
  show Json.py_eq (.obj _) (.obj _) = true ↔ _
  rw [Json.py_eq_obj_perm hperm', Json.py_eq, hlength, beq_self_eq_true, Bool.true_and]
  exact Json.py_eq_jsonb_members_stored ho hflat hexact fun k v hmem =>
    Json.lookup_of_mem hd.1 hmem

/-- A printed decimal is the same double as the value that was printed. -/
theorem Json.stored_shortest {n : ℤ} (hexact : binary64.Exact n) (hne : n ≠ 0) :
    (Json.int (n.sign * binary64.shortest n.natAbs)).stored = some (.float n) := by
  have hself := Format.of_nat_shortest ((Format.of_nat_eq_self_iff n.natAbs).mpr hexact)
  have hpos : binary64.shortest n.natAbs ≠ 0 := by
    -- `0` reads back as 0
    intro hnone
    rw [hnone, (Format.of_nat_eq_self_iff 0).mpr
      ⟨⟨0, 0, Nat.two_pow_pos _, rfl⟩, Nat.two_pow_pos _⟩, Option.some.injEq] at hself
    exact hne (Int.natAbs_eq_zero.mp hself.symm)
  have hsign : (n.sign * (binary64.shortest n.natAbs : ℤ)).sign = n.sign := by
    rw [Int.sign_mul, Int.sign_sign, Int.sign_natCast_of_ne_zero hpos, Int.mul_one]
  have habs : (n.sign * (binary64.shortest n.natAbs : ℤ)).natAbs = binary64.shortest n.natAbs := by
    rw [Int.natAbs_mul, Int.natAbs_sign_of_ne_zero hne, Nat.one_mul, Int.natAbs_natCast]
  rw [Json.stored, Format.of_int, habs, hself, hsign, Option.map_some, Option.map_some,
    Int.sign_mul_natAbs]

/-- Read through a `Struct`, a scalar is the same from either column: what has been
printed for a double reads back as that double. -/
theorem Json.stored_jsonb_stored {v w : Json} (h : v.stored = some w) (hscalar : v.scalar = true)
    (hexact : v.Exact) : w.jsonb.stored = v.jsonb.stored := by
  cases v with
  | int n =>
      have hstored := h
      rw [Json.stored, (Format.of_int_eq_self_iff n).mpr hexact] at h
      cases h
      rw [Json.jsonb_int, hstored, Json.jsonb, Json.jsonb_float_int]
      split
      · rfl
      · rename_i hge
        refine Json.stored_shortest hexact ?_
        rintro rfl
        exact hge (by decide)
  | arr items => cases hscalar
  | obj members => cases hscalar
  | _ =>
      cases h
      rfl

/-- **Over gRPC the two columns look alike.** A `Struct` has nothing but doubles, and so a
client that reads its payloads over gRPC does not see which client has started the
execution, even where the columns differ. -/
theorem Json.stored_jsonb_members : ∀ {vs ws : JsonObject}, Json.stored_members vs = some ws →
    Flat vs → Json.ExactMembers vs →
    Json.stored_members (Json.jsonb_members ws) = Json.stored_members (Json.jsonb_members vs)
  | [], ws, h, _, _ => by
      cases h
      rfl
  | (k, v) :: vs, ws, h, hflat, hexact => by
      obtain ⟨w, hw, h⟩ := Option.bind_eq_some_iff.mp h
      obtain ⟨ws, hws, rfl⟩ := Option.map_eq_some_iff.mp h
      unfold Flat at hflat
      rw [List.forall_mem_cons] at hflat
      rw [Json.jsonb_members, Json.jsonb_members, Json.stored_members, Json.stored_members,
        Json.stored_jsonb_stored hw hflat.1 hexact.1,
        Json.stored_jsonb_members hws hflat.2 hexact.2]

/-- The dict that arrives over gRPC, for a payload that the command carries. -/
theorem grpc_command_stored (hP : P.Laws) (hflat : Flat payload)
    (hexact : (Json.obj payload).Exact) (vid owner : ℕ) :
    ∃ o' l items, Json.stored_members payload = some o' ∧ l.Perm o' ∧
      PyDict.json? items = some l ∧
      grpc_command P vid payload owner
        = .ok { workflow_version_id := vid, input_payload := items } := by
  obtain ⟨o', ho'⟩ := Json.stored_members_of_exact _ hexact
  match payload with
  | [] =>
      cases ho'
      exact ⟨[], [], [], rfl, .refl _, rfl, rfl⟩
  | m :: ms =>
      obtain ⟨s, hs⟩ := hP.update _ _ ho'
      obtain ⟨l, hl, hperm⟩ := (hP.json_items ho' hs).1 hflat
      refine ⟨o', l, P.items s, ho', hperm, hl, ?_⟩
      rw [grpc_command_cons, hs]
      rfl

end Start

/-- The engine starts something. -/
theorem startable_solo : Startable (env_of solo) 0 0 := by
  have hok : (start_execution (env_of solo) 0 none 0 0 0).toOption.isSome = true := by
    decide +kernel
  cases hstart : start_execution (env_of solo) 0 none 0 0 0 with
  | error err =>
      rw [hstart] at hok
      cases hok
  | ok p => exact start_execution_ok_iff.mp ⟨p.1, p.2, hstart⟩

/-- **When a start does not depend on the transport**: exactly for the payloads
without nested objects and arrays whose integers are doubles and are printed as such. The
first two conditions are those of `grpc_command_carries_iff`, under which the command is
`==` to the one the local client makes. Then the engine does the same in both, and what is
left is the column, where the one has written the integers and the other their doubles
([`payload_eq_jsonb_iff`]). -/
theorem starts_alike_iff (P : Protobuf) (hP : P.Laws) (payload : JsonObject)
    (hd : (Json.obj payload).Distinct) :
    StartsAlike P payload ↔
      Flat payload ∧ (Json.obj payload).Exact ∧ PrintsIntegers payload := by
  -- what is persisted is what the columns hold, if the engine starts at all
  have hboth : Flat payload → (Json.obj payload).Exact → ∀ env db vid owner e now node_pk,
      same_or_neither
        (persisted e ((grpc_command P vid payload owner).bind fun command =>
          ExecutionEngine.start_execution env db command owner e now node_pk))
        (persisted e (ExecutionEngine.start_execution env db
          (LocalExecutionEngineClient.command vid payload) owner e now node_pk)) ↔
      (Startable env vid owner → PrintsIntegers payload) := by
    intro hflat hexact env db vid owner e now node_pk
    obtain ⟨o', l, items, ho', hperm, hl, hcommand⟩ :=
      grpc_command_stored hP hflat hexact vid owner
    rw [hcommand]
    show same_or_neither (persisted e (ExecutionEngine.start_execution ..)) _ ↔ _
    have hplain : (LocalExecutionEngineClient.command vid payload).input_payload.json?
        = some payload := PyDict.json_plain payload
    have hgrpc := @persisted_start env db owner e now node_pk
      { workflow_version_id := vid, input_payload := items } l hl
    -- whether the engine starts does not depend on the payload
    rcases persisted_start env db owner e now node_pk hplain with hlocal | hlocal
    · rcases hgrpc with hgrpc | hgrpc
      · rw [hgrpc.1, hlocal.1]
        refine (payload_eq_jsonb_iff ho' hperm hd hflat hexact).trans ?_
        exact ⟨fun h _ => h, fun h => h hlocal.2⟩
      · exact absurd hlocal.2 hgrpc.2
    · rcases hgrpc with hgrpc | hgrpc
      · exact absurd hgrpc.2 hlocal.2
      · rw [hgrpc.1, hlocal.1]
        exact iff_of_true trivial fun hstart => absurd hstart hlocal.2
  constructor
  · intro h
    obtain ⟨hflat, hexact⟩ := (grpc_command_carries_iff hP hd 0 0).mp (h.command 0 0)
    refine ⟨hflat, hexact, ?_⟩
    -- one start that succeeds shows the column of every payload
    obtain ⟨session, -, -⟩ : ∃ session pubs,
        start_execution (env_of solo) 0 none 0 0 0 = .ok (session, pubs) :=
      start_execution_ok_iff.mpr startable_solo
    let row : StoredExecution := { rows := session.inserted, node_pk := fun _ => 0 }
    let db : Database := { executions := { keys := [], row := fun _ => row }, int_max := 0 }
    exact (hboth hflat hexact _ db _ _ 0 0 fun _ => 0).mp (h.persisted ..) startable_solo
  · rintro ⟨hflat, hexact, hprints⟩
    refine ⟨fun vid owner => (grpc_command_carries_iff hP hd vid owner).mpr ⟨hflat, hexact⟩, ?_⟩
    intro env db vid owner e now node_pk
    exact (hboth hflat hexact env db vid owner e now node_pk).mpr fun _ => hprints

/-- `2 ^ 60` is a double, but not the decimal that the double is printed as; `10 ^ 17`
is both. -/
example : ¬ PrintsIntegers [("n", .int (2 ^ 60))] ∧ PrintsIntegers [("n", .int (10 ^ 17))] := by
  refine ⟨fun h => absurd (h "n" (2 ^ 60) List.mem_cons_self) (by decide +kernel), ?_⟩
  intro k n hmem
  cases List.mem_singleton.mp hmem
  exact .inr (by decide +kernel)

/-- An object with an object in it. -/
def nested_payload : JsonObject := [("user", .obj [("name", .str "ada")])]

/-- The server hands over a `Struct`, which no JSONB column takes. -/
theorem not_starts_alike : ¬ ∀ (P : Protobuf), P.Laws → ∀ payload : JsonObject,
    (Json.obj payload).Distinct → StartsAlike P payload := by
  intro h
  obtain ⟨command, hcommand, -, o, ho, -⟩ := (h struct_pb2 struct_pb2_laws nested_payload
    ⟨by decide, ⟨by decide, trivial, trivial⟩, trivial⟩).command 0 0
  cases hcommand
  cases ho

/-- An object without one. -/
def flat_payload : JsonObject := [("retries", .int 3), ("name", .str "ada")]

theorem starts_alike_iff_flat : StartsAlike struct_pb2 flat_payload := by
  have hthree : BinaryFloat.binary64.Exact 3 := BinaryFloat.Format.exact_binary64 (by decide)
  have hd : (Json.obj flat_payload).Distinct := ⟨by decide, trivial, trivial, trivial⟩
  refine (starts_alike_iff struct_pb2 struct_pb2_laws flat_payload hd).mpr
    ⟨?_, ⟨hthree, trivial, trivial⟩, ?_⟩
  · intro p hp
    rcases List.mem_cons.mp hp with rfl | hp
    · rfl
    · rw [List.mem_singleton.mp hp]
      rfl
  · intro k n hmem
    rcases List.mem_cons.mp hmem with heq | hmem
    · cases heq
      exact .inl (by decide)
    · cases List.mem_singleton.mp hmem

/-! ## Which responses can be sent -/

/-- A payload without an integer that overflows a double. -/
def Storable (payload : Option JsonObject) : Prop :=
  ∃ v, (Json.of_payload payload).stored = some v

/-- The payloads of a node can be stored in a `Struct`. -/
def NodeExecutionDTO.Storable (dto : NodeExecutionDTO) : Prop :=
  EventFlow.Storable dto.input_payload ∧ EventFlow.Storable dto.output_payload

theorem not_exists_error_eq_ok {ε α : Type} (err : ε) :
    ¬ ∃ a : α, (.error err : Except ε α) = .ok a := by
  rintro ⟨a, h⟩
  cases h

theorem mapM_ok_iff {ε α β : Type} {f : α → Except ε β} {l : List α} :
    (∃ bs, l.mapM f = .ok bs) ↔ ∀ a ∈ l, ∃ b, f a = .ok b := by
  induction l with
  | nil => exact iff_of_true ⟨[], rfl⟩ (by simp)
  | cons a l ih =>
      rw [List.forall_mem_cons, ← ih, List.mapM_cons]
      cases f a with
      | error err =>
      exact iff_of_false (not_exists_error_eq_ok err) fun h => not_exists_error_eq_ok err h.1
      | ok b =>
          cases l.mapM f with
          | error err =>
          exact iff_of_false (not_exists_error_eq_ok err) fun h => not_exists_error_eq_ok err h.2
          | ok bs => exact iff_of_true ⟨b :: bs, rfl⟩ ⟨⟨b, rfl⟩, bs, rfl⟩

theorem mapM_eq_ok_nil {ε α β : Type} {f : α → Except ε β} {l : List α}
    (h : l.mapM f = .ok []) : l = [] := by
  cases l with
  | nil => rfl
  | cons a l =>
      rw [List.mapM_cons] at h
      cases hb : f a with
      | error err =>
          rw [hb] at h
          cases h
      | ok b =>
          cases hbs : l.mapM f with
          | error err =>
              rw [hb, hbs] at h
              cases h
          | ok bs =>
              rw [hb, hbs] at h
              cases h

section Sent

variable {P : Protobuf}

theorem struct_field_ok_iff (hP : P.Laws) (payload : Option JsonObject) :
    (∃ field, struct_field P payload = .ok field) ↔ Storable payload := by
  rcases payload with - | - | ⟨m, ms⟩
  · exact iff_of_true ⟨none, rfl⟩ ⟨_, rfl⟩
  · exact iff_of_true ⟨none, rfl⟩ ⟨_, rfl⟩
  · have hdef : struct_field P (some (m :: ms)) = (P.update (m :: ms)).map some := rfl
    have hstored : (Json.of_payload (some (m :: ms))).stored
        = (Json.stored_members (m :: ms)).map .obj := by
      rw [Json.of_payload, Json.stored]
    rw [hdef, Storable, hstored]
    cases ho : Json.stored_members (m :: ms) with
    | none =>
        rw [hP.overflow _ ho]
        refine iff_of_false (not_exists_error_eq_ok _) ?_
        rintro ⟨v, hv⟩
        cases hv
    | some o' =>
        obtain ⟨s, hs⟩ := hP.update _ _ ho
        rw [hs]
        exact iff_of_true ⟨some s, rfl⟩ ⟨.obj o', rfl⟩

/-- A node can be sent if and only if its payloads can, its counters being those
of INTEGER columns. -/
theorem map_node_ok_iff (hP : P.Laws) {dto : NodeExecutionDTO} (hattempt : dto.attempt < 2 ^ 31)
    (hmax : dto.max_attempts < 2 ^ 31) :
    (∃ msg, map_node_execution_dto_to_pb P dto = .ok msg) ↔ dto.Storable := by
  rw [NodeExecutionDTO.Storable, ← struct_field_ok_iff hP, ← struct_field_ok_iff hP]
  simp only [map_node_execution_dto_to_pb, int32_of_lt hattempt, int32_of_lt hmax, bind,
    Except.bind]
  cases struct_field P dto.input_payload with
  | error err =>
      exact iff_of_false (not_exists_error_eq_ok err) fun h => not_exists_error_eq_ok err h.1
  | ok input =>
      cases struct_field P dto.output_payload with
      | error err =>
          exact iff_of_false (not_exists_error_eq_ok err) fun h => not_exists_error_eq_ok err h.2
      | ok output => exact iff_of_true ⟨_, rfl⟩ ⟨⟨input, rfl⟩, output, rfl⟩

theorem map_execution_ok_iff (hP : P.Laws) {dto : ExecutionDTO}
    (hnodes : ∀ node ∈ dto.node_executions, node.attempt < 2 ^ 31 ∧ node.max_attempts < 2 ^ 31) :
    (∃ msg, map_execution_dto_to_pb P dto = .ok msg) ↔
      Storable dto.input_payload ∧ ∀ node ∈ dto.node_executions, node.Storable := by
  have hloop : (∃ msgs, dto.node_executions.mapM (map_node_execution_dto_to_pb P) = .ok msgs) ↔
      ∀ node ∈ dto.node_executions, node.Storable := by
    rw [mapM_ok_iff]
    exact forall₂_congr fun node hnode =>
      map_node_ok_iff hP (hnodes node hnode).1 (hnodes node hnode).2
  rw [← struct_field_ok_iff hP, ← hloop]
  simp only [map_execution_dto_to_pb, bind, Except.bind]
  cases struct_field P dto.input_payload with
  | error err =>
      exact iff_of_false (not_exists_error_eq_ok err) fun h => not_exists_error_eq_ok err h.1
  | ok input =>
      cases dto.node_executions.mapM (map_node_execution_dto_to_pb P) with
      | error err =>
          exact iff_of_false (not_exists_error_eq_ok err) fun h => not_exists_error_eq_ok err h.2
      | ok msgs => exact iff_of_true ⟨_, rfl⟩ ⟨⟨input, rfl⟩, msgs, rfl⟩

end Sent

/-! ## Listing -/

/-- The limit that the server works with. -/
def server_limit (limit : ℕ) : ℕ := if limit = 0 then 50 else limit

/-- The same executions in the same order, or both fail. -/
def lists_alike : Except TransportError (List ExecutionDTO) →
    Except TransportError (List ExecutionDTO) → Prop
  | .ok a, .ok b => List.Forall₂ ExecutionDTO.PyEq a b
  | .error _, .error _ => True
  | _, _ => False

/-- When a listing does not depend on the transport. With a status that the
engine refuses, when the client sends it, or the server fails as well; else when
the database refuses the offset, or the arguments arrive as they are and the
executions survive. -/
def ListsAlike (env : Env) (db : Database) (owner : ℕ) (status : Option String)
    (limit offset : ℕ) : Prop :=
  match ExecutionEngine.status_enum status with
  | .error _ => status ≠ some "" ∨ 2 ^ 31 ≤ offset ∨
      ∃ dto ∈ ExecutionEngine.page env db owner none (server_limit limit) offset,
        ¬ Storable dto.input_payload
  | .ok st => db.int_max < offset ∨ offset < 2 ^ 31 ∧
      (limit ≠ 0 ∨ (ExecutionEngine.select env db owner st).length ≤ offset) ∧
      ∀ dto ∈ ExecutionEngine.page env db owner st limit offset, dto.Survives

/-- Stored payloads are dicts. -/
def Database.Dicts (db : Database) : Prop :=
  ∀ e ∈ db.executions.keys, IsDict (db.executions.row e).rows.execution.input_payload

section Listing

variable {P : Protobuf} {env : Env} {db : Database} {owner limit offset : ℕ}
  {status : Option String} {st : Option ExecutionStatus}

/-- A page shows stored executions, without their nodes. -/
theorem mem_page {dto : ExecutionDTO}
    (h : dto ∈ ExecutionEngine.page env db owner st limit offset) :
    ∃ e ∈ db.executions.keys, dto = ExecutionEngine.execution_dto e (db.executions.row e) [] := by
  obtain ⟨p, hp, rfl⟩ := List.mem_map.mp h
  have hselect := List.mem_of_mem_drop (List.mem_of_mem_take hp)
  have hfound := (List.mem_insertionSort _).mp hselect
  obtain ⟨e, he, rfl⟩ := List.mem_map.mp (List.mem_filter.mp hfound).1
  exact ⟨e, he, rfl⟩

theorem page_returned (hdb : db.Dicts) {dto : ExecutionDTO}
    (h : dto ∈ ExecutionEngine.page env db owner st limit offset) : dto.Returned := by
  obtain ⟨e, he, rfl⟩ := mem_page h
  exact ⟨hdb e he, nofun⟩

/-- The engine's listing, for a limit that the database takes. -/
theorem list_executions_eq (env : Env) (owner offset : ℕ) (status : Option String)
    (hlimit : limit ≤ db.int_max) :
    ExecutionEngine.list_executions env db owner status limit offset
      = (ExecutionEngine.status_enum status).bind fun st =>
          if db.int_max < offset then .error .data_error
          else .ok (ExecutionEngine.page env db owner st limit offset) := by
  unfold ExecutionEngine.list_executions
  cases ExecutionEngine.status_enum status with
  | error err => rfl
  | ok st =>
      have hiff : (db.int_max < limit ∨ db.int_max < offset) ↔ db.int_max < offset := by omega
      simp only [bind, Except.bind, hiff]
      rfl

/-- A number that `int32` refuses never leaves the client. -/
theorem grpc_list_of_large (h : 2 ^ 31 ≤ limit ∨ 2 ^ 31 ≤ offset) :
    GrpcExecutionEngineClient.list_executions P env db owner status limit offset
      = .error .value_error := by
  have hrequest : GrpcExecutionEngineClient.list_request owner status limit offset
      = .error .value_error := by
    unfold GrpcExecutionEngineClient.list_request
    by_cases hlimit : limit < 2 ^ 31
    · have ho : int32 offset = .error .value_error := if_neg (by omega)
      rw [int32_of_lt hlimit, ho]
      rfl
    · have hl : int32 limit = .error .value_error := if_neg hlimit
      rw [hl]
      rfl
  unfold GrpcExecutionEngineClient.list_executions
  rw [hrequest]
  rfl

/-- What the client returns for numbers that arrive. `internal` is the servicer, which
turns what is raised into INTERNAL, and `stub` the client, which sees that. -/
theorem grpc_list_eq (hmax : 2 ^ 31 ≤ db.int_max + 1) (hlimit : limit < 2 ^ 31)
    (hoffset : offset < 2 ^ 31) :
    GrpcExecutionEngineClient.list_executions P env db owner status limit offset
      = (stub (internal ((ExecutionEngine.status_enum (string_field status)).bind fun st =>
          (ExecutionEngine.page env db owner st (server_limit limit) offset).mapM
            (map_execution_dto_to_pb P)))).map fun msgs => msgs.map (map_execution P) := by
  have hl : int32 limit = .ok limit := int32_of_lt hlimit
  have ho : int32 offset = .ok offset := int32_of_lt hoffset
  have hserver : server_limit limit ≤ db.int_max := by
    unfold server_limit
    split <;> omega
  have hoff : ¬ db.int_max < offset := by omega
  have hserve : ExecutionEngineServiceServicer.ListExecutions P env db
      ⟨owner, string_field status, limit, offset⟩
      = internal ((ExecutionEngine.status_enum (string_field status)).bind fun st =>
          (ExecutionEngine.page env db owner st (server_limit limit) offset).mapM
            (map_execution_dto_to_pb P)) := by
    unfold ExecutionEngineServiceServicer.ListExecutions
    change internal ((ExecutionEngine.list_executions env db owner (string_field status)
      (server_limit limit) offset).bind _) = _
    rw [list_executions_eq env owner offset _ hserver]
    cases ExecutionEngine.status_enum (string_field status) with
    | error err => rfl
    | ok st =>
        simp only [Except.bind, if_neg hoff]
  rw [← hserve]
  simp only [GrpcExecutionEngineClient.list_executions, GrpcExecutionEngineClient.list_request,
    bind, Except.bind, hl, ho, pure, Except.pure]
  cases ExecutionEngineServiceServicer.ListExecutions P env db
      ⟨owner, string_field status, limit, offset⟩ with
  | error code => rfl
  | ok msgs => rfl

/-- A page can be sent if and only if the payloads in it can. -/
theorem page_ok_iff (hP : P.Laws) :
    (∃ msgs, (ExecutionEngine.page env db owner st limit offset).mapM
      (map_execution_dto_to_pb P) = .ok msgs) ↔
      ∀ dto ∈ ExecutionEngine.page env db owner st limit offset,
        Storable dto.input_payload := by
  rw [mapM_ok_iff]
  refine forall₂_congr fun dto hdto => ?_
  obtain ⟨e, -, rfl⟩ := mem_page hdto
  rw [map_execution_ok_iff hP (List.forall_mem_nil _)]
  exact and_iff_left (List.forall_mem_nil _)

/-- A status that the engine accepts is not empty, so the client sends it. -/
theorem string_field_of_status (h : ExecutionEngine.status_enum status = .ok st) :
    string_field status = status := by
  refine (string_field_iff status).mpr ?_
  rintro rfl
  cases h

/-- The page that arrives shows what the local page shows. -/
theorem pages_alike_iff (hP : P.Laws) (hdb : db.Dicts) :
    (∃ msgs, (ExecutionEngine.page env db owner st (server_limit limit) offset).mapM
        (map_execution_dto_to_pb P) = .ok msgs ∧
      List.Forall₂ ExecutionDTO.PyEq (msgs.map (map_execution P))
        (ExecutionEngine.page env db owner st limit offset)) ↔
      (limit ≠ 0 ∨ (ExecutionEngine.select env db owner st).length ≤ offset) ∧
      ∀ dto ∈ ExecutionEngine.page env db owner st limit offset, dto.Survives := by
  by_cases hzero : limit = 0
  · -- nothing is asked for, and fifty are sent
    subst hzero
    have hempty : ExecutionEngine.page env db owner st 0 offset = [] := rfl
    have hnone : ExecutionEngine.page env db owner st (server_limit 0) offset = [] ↔
        (ExecutionEngine.select env db owner st).length ≤ offset := by
      rw [ExecutionEngine.page, List.map_eq_nil_iff, List.take_eq_nil_iff, List.drop_eq_nil_iff]
      exact or_iff_right (by decide)
    rw [hempty, and_iff_left (by simp), or_iff_right (by simp), ← hnone]
    constructor
    · rintro ⟨msgs, hmsgs, hall⟩
      cases msgs with
      | cons msg msgs => cases hall
      | nil => exact mapM_eq_ok_nil hmsgs
    · intro hpage
      rw [hpage]
      exact ⟨[], rfl, .nil⟩
  · have hserver : server_limit limit = limit := if_neg hzero
    rw [hserver, and_iff_right (.inl hzero)]
    exact mapM_round_trip_iff fun dto hdto => execution_round_trip_iff hP (page_returned hdb hdto)

end Listing

/-- **When a listing does not depend on the transport**, for every stored state, owner,
status and offset, and every limit that the REST endpoint admits. The database takes at
least the numbers of an INTEGER as `OFFSET`. The owner's rows are the same in both. What
can differ is the status that is asked for, the limit if it is 0, and what the mapping of
a DTO loses; the offset matters only in that it says which rows are returned. -/
theorem lists_alike_iff (P : Protobuf) (hP : P.Laws) (env : Env) (db : Database)
    (hdb : db.Dicts) (hmax : 2 ^ 31 ≤ db.int_max + 1) (owner : ℕ) (status : Option String)
    (limit offset : ℕ) (hlimit : limit ≤ 100) :
    lists_alike
      (GrpcExecutionEngineClient.list_executions P env db owner status limit offset)
      (LocalExecutionEngineClient.list_executions env db owner status limit offset) ↔
    ListsAlike env db owner status limit offset := by
  unfold LocalExecutionEngineClient.list_executions ListsAlike
  rw [list_executions_eq env owner offset status (by omega)]
  cases hst : ExecutionEngine.status_enum status with
  | error err =>
      -- the local call fails; through gRPC an empty status is no status
      show lists_alike _ (.error err) ↔ _
      dsimp only
      by_cases hoffset : offset < 2 ^ 31
      · rw [grpc_list_eq hmax (by omega) hoffset]
        by_cases hempty : status = some ""
        · subst hempty
          rw [or_iff_right (by simp), or_iff_right (by omega)]
          have hcond : (∃ dto ∈ ExecutionEngine.page env db owner none (server_limit limit) offset,
              ¬ Storable dto.input_payload) ↔
              ¬ ∃ msgs, (ExecutionEngine.page env db owner none (server_limit limit)
                offset).mapM (map_execution_dto_to_pb P) = .ok msgs := by
            rw [page_ok_iff hP]
            simp
          rw [hcond]
          show lists_alike ((stub (internal ((ExecutionEngine.page ..).mapM _))).map _) _ ↔ _
          cases (ExecutionEngine.page env db owner none (server_limit limit) offset).mapM
              (map_execution_dto_to_pb P) with
          | error err => exact iff_of_true trivial nofun
          | ok msgs => exact iff_of_false nofun fun h => h ⟨msgs, rfl⟩
        · rw [(string_field_iff status).mpr hempty, hst]
          exact iff_of_true trivial (.inl hempty)
      · rw [grpc_list_of_large (.inr (by omega))]
        exact iff_of_true trivial (.inr (.inl (by omega)))
  | ok st =>
      show lists_alike _ (if db.int_max < offset then _ else _) ↔ _
      dsimp only
      by_cases hrefused : db.int_max < offset
      · rw [if_pos hrefused, grpc_list_of_large (.inr (by omega))]
        exact iff_of_true trivial (.inl hrefused)
      · rw [if_neg hrefused, or_iff_right hrefused]
        by_cases hoffset : offset < 2 ^ 31
        · rw [grpc_list_eq hmax (by omega) hoffset, string_field_of_status hst, hst,
            and_iff_right hoffset, ← pages_alike_iff hP hdb]
          show lists_alike ((stub (internal ((ExecutionEngine.page ..).mapM _))).map _) _ ↔ _
          cases (ExecutionEngine.page env db owner st (server_limit limit) offset).mapM
              (map_execution_dto_to_pb P) with
          | error err => exact iff_of_false nofun nofun
          | ok msgs =>
              exact ⟨fun h => ⟨msgs, rfl, h⟩, fun ⟨msgs', heq, h⟩ => Except.ok.inj heq ▸ h⟩
        · rw [grpc_list_of_large (.inr (by omega))]
          exact iff_of_false nofun fun h => hoffset h.1

/-- One execution, started with a payload. -/
def one_execution : Database where
  executions :=
    { keys := [7]
      row := fun _ =>
        { rows :=
            { execution :=
                { workflow_id := 0, workflow_version_id := 0, status := .RUNNING
                  started_at := some 1, input_payload := some [("name", .str "ada")] }
              nodes := { keys := [], row := fun _ =>
                { node_type := "", status := .PENDING, attempt := 0, max_attempts := 1 } } }
          node_pk := fun _ => 0 } }
  int_max := 2 ^ 63 - 1

theorem one_execution_dicts : one_execution.Dicts := by
  intro e _
  exact ⟨by decide, trivial, trivial⟩

/-- Asked for none, the server sends the first fifty. -/
theorem not_lists_alike : ¬ ∀ (P : Protobuf), P.Laws → ∀ (env : Env) (db : Database), db.Dicts →
    2 ^ 31 ≤ db.int_max + 1 → ∀ (owner : ℕ) (status : Option String) (limit offset : ℕ),
    limit ≤ 100 → lists_alike
      (GrpcExecutionEngineClient.list_executions P env db owner status limit offset)
      (LocalExecutionEngineClient.list_executions env db owner status limit offset) := by
  intro h
  have hlists := h struct_pb2 struct_pb2_laws (env_of solo) one_execution one_execution_dicts
    (by decide) 0 none 0 0 (by decide)
  have hlocal : LocalExecutionEngineClient.list_executions (env_of solo) one_execution 0 none 0 0
      = .ok [] := rfl
  have hgrpc : (GrpcExecutionEngineClient.list_executions struct_pb2 (env_of solo) one_execution
      0 none 0 0).toOption.map List.length = some 1 := by decide +kernel
  rw [hlocal] at hlists
  cases hresult : GrpcExecutionEngineClient.list_executions struct_pb2 (env_of solo)
      one_execution 0 none 0 0 with
  | error err =>
      rw [hresult] at hlists
      exact hlists
  | ok dtos =>
      rw [hresult] at hlists hgrpc
      cases hlists
      cases hgrpc

/-- Asked for ten, it sends the one there is. -/
theorem lists_alike_iff_running :
    lists_alike
      (GrpcExecutionEngineClient.list_executions struct_pb2 (env_of solo) one_execution 0
        (some "RUNNING") 10 0)
      (LocalExecutionEngineClient.list_executions (env_of solo) one_execution 0
        (some "RUNNING") 10 0) := by
  refine (lists_alike_iff struct_pb2 struct_pb2_laws (env_of solo) one_execution
    one_execution_dicts (by decide) 0 (some "RUNNING") 10 0 (by decide)).mpr
    (.inr ⟨by decide, .inl (by decide), fun dto hdto => ?_⟩)
  obtain ⟨e, -, rfl⟩ := mem_page hdto
  exact ⟨⟨nofun, trivial, trivial⟩, nofun, List.forall_mem_nil _⟩

end EventFlow
