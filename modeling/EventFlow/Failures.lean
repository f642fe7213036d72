/-
Failures and the transport.

`AppError`s are what the API turns into 403, 404 and 400. The engine raises them
and the local client lets them through. The servicer catches every exception,
sets INTERNAL and raises again, and the gRPC client translates one code of one
method: NOT_FOUND of `get_execution`, which is not an exception of the engine.
So no call over gRPC raises an `AppError`, and a call that fails with one
locally fails differently over gRPC ([`fails_alike_iff`]).

The other half of the promise, that a call which returns locally does not raise
over gRPC, fails where a request or a response cannot be sent: a nested payload,
a number that `int32` refuses, an integer that overflows a double.
-/
import EventFlow.Transports

set_option autoImplicit false

namespace EventFlow

/-- A call of an `ExecutionEngineClient`. -/
inductive Call where
  | start_execution (workflow_version_id : ℕ) (input_payload : JsonObject)
      (owner_api_key_id e now : ℕ) (node_pk : String → ℕ)
  | get_execution (e owner_api_key_id : ℕ)
  | list_executions (owner_api_key_id : ℕ) (status : Option String) (limit offset : ℕ)
  | get_node_executions (e owner_api_key_id : ℕ)
  | retry_node (e : ℕ) (n : String) (owner_api_key_id now : ℕ)
  | delete_execution (e owner_api_key_id : ℕ)

/-- Whether a call returns, or what it raises. -/
def outcome {α : Type} (r : Except TransportError α) : Except TransportError Unit :=
  r.map fun _ => ()

/-- The call through the local client. -/
def Call.in_process (env : Env) (db : Database) : Call → Except TransportError Unit
  | .start_execution vid payload owner e now node_pk =>
    outcome (LocalExecutionEngineClient.start_execution env db vid payload owner e now node_pk)
  | .get_execution e owner => outcome (LocalExecutionEngineClient.get_execution env db e owner)
  | .list_executions owner status limit offset =>
    outcome (LocalExecutionEngineClient.list_executions env db owner status limit offset)
  | .get_node_executions e owner =>
    outcome (LocalExecutionEngineClient.get_node_executions env db e owner)
  | .retry_node e n owner now =>
    outcome (LocalExecutionEngineClient.retry_node env db e n owner now)
  | .delete_execution e owner =>
    outcome (LocalExecutionEngineClient.delete_execution env db e owner)

/-- The call through the gRPC client. -/
def Call.over_grpc (P : Protobuf) (env : Env) (db : Database) :
    Call → Except TransportError Unit
  | .start_execution vid payload owner e now node_pk =>
    outcome (GrpcExecutionEngineClient.start_execution P env db vid payload owner e now node_pk)
  | .get_execution e owner => outcome (GrpcExecutionEngineClient.get_execution P env db e owner)
  | .list_executions owner status limit offset =>
    outcome (GrpcExecutionEngineClient.list_executions P env db owner status limit offset)
  | .get_node_executions e owner =>
    outcome (GrpcExecutionEngineClient.get_node_executions P env db e owner)
  | .retry_node e n owner now =>
    outcome (GrpcExecutionEngineClient.retry_node P env db e n owner now)
  | .delete_execution e owner =>
    outcome (GrpcExecutionEngineClient.delete_execution env db e owner)

/-- An `AppError` locally is the same `AppError` over gRPC, and a value locally is
no exception over gRPC. -/
structure FailsAlike (in_process over_grpc : Except TransportError Unit) : Prop where
  app : ∀ error : AppError, in_process = .error (.engine (.app error)) →
    ∃ error' : AppError, over_grpc = .error (.engine (.app error')) ∧
      error'.code = error.code ∧ error'.status_code = error.status_code
  value : in_process = .ok () → over_grpc = .ok ()

/-- The nodes of an execution can be sent. -/
def StoredExecution.NodesStorable (x : StoredExecution) : Prop :=
  ∀ n ∈ x.rows.nodes.keys, Storable (x.node_input n) ∧
    Storable (x.rows.nodes.row n).output_payload

/-- When a call fails alike: when no check of the engine refuses it, and what is
sent can be sent. -/
def Call.FailsAlikeWhen (env : Env) (db : Database) : Call → Prop
  | .start_execution vid payload owner _ _ _ =>
    Startable env vid owner ∧ Flat payload ∧ Storable (some payload)
  | .get_execution e owner => ∀ x, ExecutionEngine.find env db e owner = some x →
    Storable x.rows.execution.input_payload ∧ x.NodesStorable
  | .list_executions owner status limit offset =>
    ∃ st, ExecutionEngine.status_enum status = .ok st ∧
      (limit ≤ db.int_max → offset ≤ db.int_max → limit < 2 ^ 31 ∧ offset < 2 ^ 31 ∧
        ∀ dto ∈ ExecutionEngine.page env db owner st (server_limit limit) offset,
          Storable dto.input_payload)
  | .get_node_executions e owner => ∀ x, ExecutionEngine.find env db e owner = some x →
    x.NodesStorable
  | .retry_node e n owner _ => ∃ x, ExecutionEngine.find env db e owner = some x ∧
    n ∈ x.rows.nodes.keys ∧ (x.rows.nodes.row n).status = .DEAD_LETTERED ∧
    ((unresolved x.rows.dead_letter_jobs n).length ≤ 1 →
      (x.rows.nodes.row n).attempt + 1 < 2 ^ 31 →
      Storable (x.node_input n) ∧ Storable (x.rows.nodes.row n).output_payload)
  | .delete_execution e owner => ∃ x, ExecutionEngine.find env db e owner = some x

/-- `attempt` and `max_attempts` are INTEGER columns. -/
def Database.Integers (db : Database) : Prop :=
  ∀ e ∈ db.executions.keys, ∀ n ∈ (db.executions.row e).rows.nodes.keys,
    ((db.executions.row e).rows.nodes.row n).attempt < 2 ^ 31 ∧
      ((db.executions.row e).rows.nodes.row n).max_attempts < 2 ^ 31

/-! ## No `AppError` over gRPC -/

section Raised

variable {P : Protobuf} {env : Env} {db : Database}

/-- A client method whose request is built without the engine raises no
`AppError`. -/
theorem outcome_stub_ne_app {α β : Type} (r : Except StatusCode α) (f : α → β)
    (error : AppError) :
    outcome (do let resp ← stub r; return f resp) ≠ .error (.engine (.app error)) := by
  cases r <;> nofun

theorem outcome_ok_iff {α : Type} {r : Except TransportError α} :
    outcome r = .ok () ↔ ∃ a, r = .ok a := by
  cases r with
  | error err => exact iff_of_false nofun nofun
  | ok a => exact iff_of_true rfl ⟨a, rfl⟩

/-- A client method returns if and only if its RPC does. -/
theorem outcome_stub_ok_iff {α β : Type} (r : Except StatusCode α) (f : α → β) :
    outcome (do let resp ← stub r; return f resp) = .ok () ↔ ∃ a, r = .ok a := by
  cases r with
  | error code => exact iff_of_false nofun nofun
  | ok a => exact iff_of_true rfl ⟨a, rfl⟩

theorem internal_ok_iff {α : Type} {r : Except TransportError α} :
    (∃ a, internal r = .ok a) ↔ ∃ a, r = .ok a := by
  cases r with
  | error err => exact iff_of_false nofun nofun
  | ok a => exact iff_of_true ⟨a, rfl⟩ ⟨a, rfl⟩

theorem struct_field_error (hP : P.Laws) {payload : Option JsonObject} {err : TransportError}
    (h : struct_field P payload = .error err) : err = .overflow_error := by
  match payload with
  | none => cases h
  | some [] => cases h
  | some (m :: ms) =>
      have hdef : struct_field P (some (m :: ms)) = (P.update (m :: ms)).map some := rfl
      rw [hdef] at h
      cases ho : Json.stored_members (m :: ms) with
      | none =>
          rw [hP.overflow _ ho] at h
          cases h
          rfl
      | some o' =>
          obtain ⟨s, hs⟩ := hP.update _ _ ho
          rw [hs] at h
          cases h

theorem Call.over_grpc_ne_app (hP : P.Laws) (c : Call) (error : AppError) :
    c.over_grpc P env db ≠ .error (.engine (.app error)) := by
  cases c with
  | start_execution vid payload owner e now node_pk =>
      show outcome (GrpcExecutionEngineClient.start_execution ..) ≠ _
      unfold GrpcExecutionEngineClient.start_execution GrpcExecutionEngineClient.start_request
      cases hfield : struct_field P (some payload) with
      | error err =>
          rw [struct_field_error hP hfield]
          nofun
      | ok field => exact outcome_stub_ne_app _ _ error
  | get_execution e owner =>
      show outcome (GrpcExecutionEngineClient.get_execution ..) ≠ _
      unfold GrpcExecutionEngineClient.get_execution
      split <;> nofun
  | list_executions owner status limit offset =>
      show outcome (GrpcExecutionEngineClient.list_executions ..) ≠ _
      by_cases h : limit < 2 ^ 31 ∧ offset < 2 ^ 31
      · unfold GrpcExecutionEngineClient.list_executions GrpcExecutionEngineClient.list_request
        rw [int32_of_lt h.1, int32_of_lt h.2]
        exact outcome_stub_ne_app _ _ error
      · rw [grpc_list_of_large (by omega)]
        nofun
  | get_node_executions e owner => exact outcome_stub_ne_app _ _ error
  | retry_node e n owner now => exact outcome_stub_ne_app _ _ error
  | delete_execution e owner =>
      show outcome (GrpcExecutionEngineClient.delete_execution ..) ≠ _
      unfold GrpcExecutionEngineClient.delete_execution
      cases ExecutionEngineServiceServicer.DeleteExecution env db e owner <;> nofun

/-- So a call fails alike if and only if it does not raise an `AppError` locally
and returns over gRPC whenever it returns locally. -/
theorem Call.failsAlike_iff (hP : P.Laws) (c : Call) :
    FailsAlike (c.in_process env db) (c.over_grpc P env db) ↔
      (∀ error, c.in_process env db ≠ .error (.engine (.app error))) ∧
        (c.in_process env db = .ok () → c.over_grpc P env db = .ok ()) := by
  constructor
  · intro h
    refine ⟨fun error herror => ?_, h.value⟩
    obtain ⟨error', herror', -⟩ := h.app error herror
    exact c.over_grpc_ne_app hP error' herror'
  · rintro ⟨happ, hvalue⟩
    exact ⟨fun error herror => absurd herror (happ error), hvalue⟩

end Raised

/-! ## `start_execution` -/

section Start

variable {P : Protobuf} {env : Env} {db : Database} {owner e now : ℕ} {node_pk : String → ℕ}

/-- An object can be stored if and only if its members can. -/
theorem Json.stored_members_ok_iff {o : JsonObject} :
    (∃ o', Json.stored_members o = some o') ↔ ∀ p ∈ o, ∃ w, p.2.stored = some w := by
  induction o with
  | nil => exact iff_of_true ⟨[], rfl⟩ (by simp)
  | cons p o ih =>
      obtain ⟨k, v⟩ := p
      rw [List.forall_mem_cons, ← ih, Json.stored_members]
      cases v.stored with
      | none => exact iff_of_false nofun fun h => nomatch h.1
      | some w =>
          cases Json.stored_members o with
          | none => exact iff_of_false nofun fun h => nomatch h.2
          | some ws => exact iff_of_true ⟨_, rfl⟩ ⟨⟨w, rfl⟩, ws, rfl⟩

/-- Where the members of a stored object come from. -/
theorem Json.mem_stored_members {o o' : JsonObject} (h : Json.stored_members o = some o')
    {p : String × Json} (hp : p ∈ o') : ∃ v : Json, v.stored = some p.2 := by
  induction o generalizing o' with
  | nil =>
      cases h
      cases hp
  | cons q o ih =>
      obtain ⟨k, v⟩ := q
      obtain ⟨w, hw, h⟩ := Option.bind_eq_some_iff.mp h
      obtain ⟨ws, hws, rfl⟩ := Option.map_eq_some_iff.mp h
      rcases List.mem_cons.mp hp with rfl | hp
      · exact ⟨v, hw⟩
      · exact ih hws hp

/-- A stored scalar can be stored again: its integers are gone. -/
theorem Json.stored_scalar {v w : Json} (h : v.stored = some w) (hw : w.scalar = true) :
    ∃ u, w.stored = some u := by
  cases v with
  | int n =>
      obtain ⟨m, -, rfl⟩ := Option.map_eq_some_iff.mp h
      exact ⟨_, rfl⟩
  | arr items =>
      obtain ⟨ws, -, rfl⟩ := Option.map_eq_some_iff.mp h
      cases hw
  | obj members =>
      obtain ⟨ws, -, rfl⟩ := Option.map_eq_some_iff.mp h
      cases hw
  | null => cases h; exact ⟨_, rfl⟩
  | bool b => cases h; exact ⟨_, rfl⟩
  | float q => cases h; exact ⟨_, rfl⟩
  | str s => cases h; exact ⟨_, rfl⟩

theorem storable_some_iff {o : JsonObject} :
    Storable (some o) ↔ ∃ o', Json.stored_members o = some o' := by
  rw [Storable, Json.of_payload, Json.stored]
  cases Json.stored_members o with
  | none =>
      refine iff_of_false ?_ ?_
      · rintro ⟨v, hv⟩
        cases hv
      · rintro ⟨o', ho'⟩
        cases ho'
  | some o' => exact iff_of_true ⟨_, rfl⟩ ⟨o', rfl⟩

theorem initial_node_max_attempts_le (d : WorkflowDefinition) (n : String) :
    (initial_node d n).max_attempts ≤ 10 := by
  unfold initial_node
  split
  · exact (resolve_retry_policy _ d).max_attempts_le
  · decide

/-- **What `start_execution` returns**, for a payload the database takes: a DTO whose
nodes can be sent. The new nodes have an attempt of 0 or 1 and the number of attempts of
their policy, which pydantic bounds, and no output; so there is nothing in the DTO that
the servicer could not send but the payload. -/
theorem start_execution_returns (db : Database) (e now : ℕ) (node_pk : String → ℕ)
    {command : StartExecutionCommand} {o : JsonObject} (ho : command.input_payload.json? = some o)
    (hstart : Startable env command.workflow_version_id owner) :
    ∃ db' dto, ExecutionEngine.start_execution env db command owner e now node_pk
        = .ok (db', some dto) ∧ dto.input_payload = some o ∧
      ∀ node ∈ dto.node_executions, node.attempt < 2 ^ 31 ∧ node.max_attempts < 2 ^ 31 ∧
        node.Storable := by
  obtain ⟨session, pubs, hok⟩ : ∃ session pubs, start_execution env command.workflow_version_id
      command.input_payload.jsonb owner e now = .ok (session, pubs) :=
    start_execution_ok_iff.mpr hstart
  obtain ⟨version, hversion, -, -, -, -, -, hvid, -, -, -, -, hq, hp⟩ :=
    start_execution_spec hok
  obtain ⟨version', hversion', howner, -⟩ := hstart
  rw [hversion, Option.some.injEq] at hversion'
  subst hversion'
  obtain ⟨x, hx⟩ : ∃ x : StoredExecution, x = { rows := session.inserted, node_pk } := ⟨_, rfl⟩
  -- the reply is read back, and the caller owns what has been inserted
  have hfind : ExecutionEngine.find env (db.insert e x) e owner = some x := by
    have hget : (db.insert e x).executions.get? e = some x :=
      Table.get?_eq_some_iff.mpr ⟨List.mem_append_right _ (List.mem_singleton_self e),
        Function.update_self ..⟩
    have hmine : env.owner x.rows.execution = some owner := by
      subst hx
      show (env.versions session.execution.workflow_version_id).map _ = _
      rw [hvid, hversion, ← howner]
      rfl
    rw [ExecutionEngine.find, hget, Option.filter_some, if_pos (decide_eq_true hmine)]
  have hrun : ExecutionEngine.start_execution env db command owner e now node_pk
      = .ok (db.insert e x, (ExecutionEngine.get_execution env (db.insert e x) e owner).map
          fun dto => { dto with input_payload := some o }) := by
    unfold ExecutionEngine.start_execution
    rw [hok, ho, hx]
  have hdto : ExecutionEngine.get_execution env (db.insert e x) e owner
      = some (ExecutionEngine.execution_dto e x
          (x.rows.nodes.keys.map (ExecutionEngine.node_dto e x))) := by
    rw [ExecutionEngine.get_execution, ExecutionEngine.get_node_executions, hfind]
  refine ⟨_, _, hrun.trans (by rw [hdto, Option.map_some]), rfl, ?_⟩
  intro node hnode
  obtain ⟨n, -, rfl⟩ := List.mem_map.mp hnode
  have hmax := initial_node_max_attempts_le version.definition n
  -- the bounds of `RetryPolicy` are what keeps `max_attempts` small
  have hrow : (x.rows.nodes.row n).attempt ≤ 1 ∧ (x.rows.nodes.row n).max_attempts ≤ 10 ∧
      (x.rows.nodes.row n).output_payload = none := by
    rw [hx]
    show (session.nodes.row n).attempt ≤ 1 ∧ (session.nodes.row n).max_attempts ≤ 10 ∧
      (session.nodes.row n).output_payload = none
    by_cases hn : n ∈ pubs
    · rw [hq n hn]
      simp [hmax]
    · rw [hp n hn]
      simp [hmax]
  refine ⟨?_, ?_, ?_, ?_⟩
  · show (x.rows.nodes.row n).attempt < _
    omega
  · show (x.rows.nodes.row n).max_attempts < _
    omega
  · rw [hx]
    exact ⟨_, rfl⟩
  · show Storable (x.rows.nodes.row n).output_payload
    rw [hrow.2.2]
    exact ⟨_, rfl⟩

/-- The RPC succeeds if and only if the dict can be stored and sent back. The row is
flushed first, and that asks for JSON; the response is built afterwards, and that asks for
numbers in the range of a double. -/
theorem StartExecution_ok_iff (db : Database) (e now : ℕ) (node_pk : String → ℕ) (hP : P.Laws)
    {request : Pb.StartExecutionRequest P}
    (hstart : Startable env request.workflow_version_id request.owner_api_key_id) :
    (∃ msg, ExecutionEngineServiceServicer.StartExecution P env db request e now node_pk
      = .ok msg) ↔
    ∃ o, (ExecutionEngineServiceServicer.command P request).input_payload.json? = some o ∧
      Storable (some o) := by
  unfold ExecutionEngineServiceServicer.StartExecution
  cases ho : (ExecutionEngineServiceServicer.command P request).input_payload.json? with
  | none =>
      -- the flush of the execution row raises
      refine iff_of_false ?_ nofun
      rintro ⟨msg, hmsg⟩
      unfold ExecutionEngine.start_execution at hmsg
      rw [ho] at hmsg
      cases hrun : start_execution env (ExecutionEngineServiceServicer.command P
          request).workflow_version_id (ExecutionEngineServiceServicer.command P
          request).input_payload.jsonb request.owner_api_key_id e now with
      | error err =>
          rw [hrun] at hmsg
          cases hmsg
      | ok p =>
          rw [hrun] at hmsg
          cases hmsg
  | some o =>
      obtain ⟨db', dto, hrun, hinput, hnodes⟩ :=
        start_execution_returns db e now node_pk ho hstart
      have hsent : (∃ msg, map_execution_dto_to_pb P dto = .ok msg) ↔ _ :=
        map_execution_ok_iff hP fun node hnode =>
          ⟨(hnodes node hnode).1, (hnodes node hnode).2.1⟩
      rw [hinput, and_iff_left fun node hnode => (hnodes node hnode).2.2] at hsent
      rw [hrun]
      show (∃ msg, internal (map_execution_dto_to_pb P dto) = .ok msg) ↔ _
      have hsome : (∃ o', some o = some o' ∧ Storable (some o')) ↔ Storable (some o) := by simp
      rw [hsome, ← hsent, internal_ok_iff]

/-- **A start over gRPC**, where the engine would start: it returns if and only if the
payload is flat and no integer in it overflows. The request is built from the payload, and
decoded again by `items()`: a payload that is not flat arrives with messages inside, which
`json.dumps` refuses. -/
theorem over_grpc_start_iff (hP : P.Laws) {vid : ℕ} {payload : JsonObject}
    (hstart : Startable env vid owner) :
    (Call.start_execution vid payload owner e now node_pk).over_grpc P env db = .ok () ↔
      Flat payload ∧ Storable (some payload) := by
  -- what remains once the request is built
  have hsend : ∀ field, struct_field P (some payload) = .ok field →
      ((Call.start_execution vid payload owner e now node_pk).over_grpc P env db = .ok () ↔
        ∃ o, (ExecutionEngineServiceServicer.command P ⟨vid, field, owner⟩).input_payload.json?
          = some o ∧ Storable (some o)) := by
    intro field hfield
    rw [← StartExecution_ok_iff db e now node_pk hP hstart]
    show outcome (GrpcExecutionEngineClient.start_execution ..) = _ ↔ _
    unfold GrpcExecutionEngineClient.start_execution GrpcExecutionEngineClient.start_request
    rw [hfield]
    exact outcome_stub_ok_iff _ _
  match payload with
  | [] =>
      rw [hsend none rfl]
      exact iff_of_true ⟨[], rfl, _, rfl⟩ ⟨nofun, _, rfl⟩
  | m :: ms =>
      have hdef : struct_field P (some (m :: ms)) = (P.update (m :: ms)).map some := rfl
      rw [storable_some_iff]
      cases ho : Json.stored_members (m :: ms) with
      | none =>
          -- the client raises `OverflowError`
          refine iff_of_false (fun h => ?_) fun h => nomatch h.2
          change outcome (GrpcExecutionEngineClient.start_execution ..) = _ at h
          unfold GrpcExecutionEngineClient.start_execution
            GrpcExecutionEngineClient.start_request at h
          rw [hdef, hP.overflow _ ho] at h
          cases h
      | some o' =>
          obtain ⟨s, hs⟩ := hP.update _ _ ho
          obtain ⟨hflat, hnot⟩ := hP.json_items ho hs
          rw [hsend (some s) (by rw [hdef, hs]; rfl), and_iff_left ⟨o', rfl⟩]
          show (∃ o, PyDict.json? (P.items s) = some o ∧ _) ↔ _
          by_cases hf : Flat (m :: ms)
          · obtain ⟨l, hl, hperm⟩ := hflat hf
            refine iff_of_true ⟨l, hl, ?_⟩ hf
            -- scalars of a `Struct` can be stored in one again
            rw [storable_some_iff, Json.stored_members_ok_iff]
            intro p hp
            have hp' := hperm.mem_iff.mp hp
            obtain ⟨v, hv⟩ := Json.mem_stored_members ho hp'
            exact Json.stored_scalar hv ((flat_stored_iff ho).mpr hf p hp')
          · rw [hnot hf]
            exact iff_of_false nofun hf

/-- A start in the process returns or raises an `AppError`. -/
theorem in_process_start (env : Env) (db : Database) (vid : ℕ) (payload : JsonObject)
    (owner e now : ℕ) (node_pk : String → ℕ) :
    (Call.start_execution vid payload owner e now node_pk).in_process env db = .ok () ∧
        Startable env vid owner ∨
      ∃ error, (Call.start_execution vid payload owner e now node_pk).in_process env db
        = .error (.engine (.app error)) ∧ ¬ Startable env vid owner := by
  have hplain : (LocalExecutionEngineClient.command vid payload).input_payload.json?
      = some payload := PyDict.json_plain payload
  have hrun : (Call.start_execution vid payload owner e now node_pk).in_process env db
      = outcome ((ExecutionEngine.start_execution env db
          (LocalExecutionEngineClient.command vid payload) owner e now node_pk).map Prod.snd) := rfl
  rw [hrun]
  by_cases hstart : Startable env vid owner
  · obtain ⟨db', dto, hok, -⟩ := start_execution_returns db e now node_pk hplain hstart
    rw [hok]
    exact .inl ⟨rfl, hstart⟩
  · refine .inr ?_
    have hvid : (LocalExecutionEngineClient.command vid payload).workflow_version_id = vid := rfl
    unfold ExecutionEngine.start_execution
    rw [hvid]
    cases hengine : start_execution env vid
        (LocalExecutionEngineClient.command vid payload).input_payload.jsonb owner e now with
    | error err =>
        obtain ⟨error, rfl⟩ := start_execution_error hengine
        exact ⟨error, rfl, hstart⟩
    | ok p => exact absurd (start_execution_ok_iff.mp ⟨p.1, p.2, hengine⟩) hstart

end Start

/-! ## The other methods -/

section Methods

variable {P : Protobuf} {env : Env} {db : Database} {owner e now : ℕ}

theorem find_eq_some_iff {x : StoredExecution} :
    ExecutionEngine.find env db e owner = some x ↔
      db.executions.get? e = some x ∧ env.owner x.rows.execution = some owner := by
  rw [ExecutionEngine.find, Option.filter_eq_some_iff, decide_eq_true_eq]

/-- The nodes of an execution can be sent if and only if their payloads can. -/
theorem nodes_ok_iff (hP : P.Laws) (hdb : db.Integers) {x : StoredExecution}
    (hx : ExecutionEngine.find env db e owner = some x) :
    (∃ msgs, (ExecutionEngine.get_node_executions env db e owner).mapM
      (map_node_execution_dto_to_pb P) = .ok msgs) ↔ x.NodesStorable := by
  obtain ⟨hkey, rfl⟩ := Table.get?_eq_some_iff.mp (find_eq_some_iff.mp hx).1
  rw [mapM_ok_iff, ExecutionEngine.get_node_executions, hx]
  show (∀ dto ∈ List.map _ _, _) ↔ _
  rw [List.forall_mem_map]
  refine forall₂_congr fun n hn => ?_
  exact map_node_ok_iff hP (hdb e hkey n hn).1 (hdb e hkey n hn).2

/-- `get_node_executions` returns locally, and over gRPC if the nodes can be
sent. -/
theorem over_grpc_nodes_iff (hP : P.Laws) (hdb : db.Integers) :
    (Call.get_node_executions e owner).over_grpc P env db = .ok () ↔
      ∀ x, ExecutionEngine.find env db e owner = some x → x.NodesStorable := by
  have hrun : (Call.get_node_executions e owner).over_grpc P env db = .ok () ↔
      ∃ msgs, (ExecutionEngine.get_node_executions env db e owner).mapM
        (map_node_execution_dto_to_pb P) = .ok msgs :=
    (outcome_stub_ok_iff _ _).trans internal_ok_iff
  rw [hrun]
  cases hx : ExecutionEngine.find env db e owner with
  | none =>
      rw [ExecutionEngine.get_node_executions, hx]
      exact iff_of_true ⟨[], rfl⟩ nofun
  | some x =>
      rw [nodes_ok_iff hP hdb hx]
      exact ⟨fun h y hy => Option.some.inj hy ▸ h, fun h => h x rfl⟩

/-- `get_execution` over gRPC returns unless an integer in the execution overflows a
double. That there is no such execution is no failure, because NOT_FOUND is the one code
that the client translates. -/
theorem over_grpc_get_iff (hP : P.Laws) (hdb : db.Integers) :
    (Call.get_execution e owner).over_grpc P env db = .ok () ↔
      ∀ x, ExecutionEngine.find env db e owner = some x →
        Storable x.rows.execution.input_payload ∧ x.NodesStorable := by
  show outcome (GrpcExecutionEngineClient.get_execution ..) = _ ↔ _
  rw [outcome_ok_iff, GrpcExecutionEngineClient.get_execution,
    ExecutionEngineServiceServicer.GetExecution]
  cases hx : ExecutionEngine.find env db e owner with
  | none =>
      rw [ExecutionEngine.get_execution, hx]
      exact iff_of_true ⟨none, rfl⟩ nofun
  | some x =>
      obtain ⟨hkey, hrow⟩ := Table.get?_eq_some_iff.mp (find_eq_some_iff.mp hx).1
      obtain ⟨dto, hdto⟩ : ∃ dto, dto = ExecutionEngine.execution_dto e x
          (x.rows.nodes.keys.map (ExecutionEngine.node_dto e x)) := ⟨_, rfl⟩
      have hget : ExecutionEngine.get_execution env db e owner = some dto := by
        rw [ExecutionEngine.get_execution, ExecutionEngine.get_node_executions, hx, hdto]
      have hsent : (∃ msg, map_execution_dto_to_pb P dto = .ok msg) ↔
          Storable x.rows.execution.input_payload ∧ x.NodesStorable := by
        rw [map_execution_ok_iff hP, hdto]
        · exact and_congr_right fun _ => List.forall_mem_map
        · intro node hnode
          rw [hdto] at hnode
          obtain ⟨n, hn, rfl⟩ := List.mem_map.mp hnode
          rw [← hrow] at hn ⊢
          exact hdb e hkey n hn
      have honly : (∀ y, some x = some y →
          Storable y.rows.execution.input_payload ∧ y.NodesStorable) ↔
          Storable x.rows.execution.input_payload ∧ x.NodesStorable :=
        ⟨fun h => h x rfl, fun h y hy => Option.some.inj hy ▸ h⟩
      rw [hget, honly, ← hsent]
      dsimp only
      cases map_execution_dto_to_pb P dto with
      | error err => exact iff_of_false nofun nofun
      | ok msg => exact iff_of_true ⟨_, rfl⟩ ⟨msg, rfl⟩

/-- `list_executions` over gRPC, with a status that the engine accepts. -/
theorem over_grpc_list_iff (hP : P.Laws) (hmax : 2 ^ 31 ≤ db.int_max + 1)
    {status : Option String} {st : Option ExecutionStatus} {limit offset : ℕ}
    (hst : ExecutionEngine.status_enum status = .ok st) :
    (Call.list_executions owner status limit offset).over_grpc P env db = .ok () ↔
      limit < 2 ^ 31 ∧ offset < 2 ^ 31 ∧
        ∀ dto ∈ ExecutionEngine.page env db owner st (server_limit limit) offset,
          Storable dto.input_payload := by
  show outcome (GrpcExecutionEngineClient.list_executions ..) = _ ↔ _
  by_cases h : limit < 2 ^ 31 ∧ offset < 2 ^ 31
  · rw [grpc_list_eq hmax h.1 h.2, string_field_of_status hst, hst, and_iff_right h.1,
      and_iff_right h.2, ← page_ok_iff hP]
    show outcome ((stub (internal ((ExecutionEngine.page ..).mapM _))).map _) = _ ↔ _
    cases (ExecutionEngine.page env db owner st (server_limit limit) offset).mapM
        (map_execution_dto_to_pb P) with
    | error err => exact iff_of_false nofun nofun
    | ok msgs => exact iff_of_true rfl ⟨msgs, rfl⟩
  · rw [grpc_list_of_large (by omega)]
    exact iff_of_false nofun fun hall => h ⟨hall.1, hall.2.1⟩

/-- What `list_executions` does locally. The status is parsed before the query is made, so
an unknown one is an `AppError` whatever the numbers are. -/
theorem in_process_list (env : Env) (db : Database) (owner : ℕ) (status : Option String)
    (limit offset : ℕ) :
    (∃ error, (Call.list_executions owner status limit offset).in_process env db
        = .error (.engine (.app error)) ∧ ¬ ∃ st, ExecutionEngine.status_enum status = .ok st) ∨
    ∃ st, ExecutionEngine.status_enum status = .ok st ∧
      (Call.list_executions owner status limit offset).in_process env db
        = if limit ≤ db.int_max ∧ offset ≤ db.int_max then .ok () else .error .data_error := by
  have hrun : (Call.list_executions owner status limit offset).in_process env db
      = outcome ((ExecutionEngine.status_enum status).bind fun st =>
          if db.int_max < limit ∨ db.int_max < offset then .error .data_error
          else .ok (ExecutionEngine.page env db owner st limit offset)) := rfl
  rw [hrun]
  cases hst : ExecutionEngine.status_enum status with
  | error err =>
      -- the only error is the refused name
      unfold ExecutionEngine.status_enum at hst
      split at hst
      · cases hst
      · split at hst
        · cases hst
        · cases hst
          exact .inl ⟨_, rfl, nofun⟩
  | ok st =>
      refine .inr ⟨st, rfl, ?_⟩
      simp only [Except.bind]
      by_cases h : limit ≤ db.int_max ∧ offset ≤ db.int_max
      · rw [if_pos h, if_neg (by omega)]
        rfl
      · rw [if_neg h, if_pos (by omega)]
        rfl

/-- **What `retry_node` does**: it refuses with an `AppError`, or the node of the caller
is DEAD_LETTERED and the retry fails on the database or returns the node at its next
attempt. The checks come in the order of the source: the execution of the caller, the
node, its status. What may fail after them is of the database, a second unresolved dead
letter or an attempt that does not fit its column. -/
theorem retry_node_cases (env : Env) (db : Database) (e : ℕ) (n : String) (owner now : ℕ) :
    (∃ error, ExecutionEngine.retry_node env db e n owner now = .error (.engine (.app error)) ∧
      ¬ ∃ x, ExecutionEngine.find env db e owner = some x ∧ n ∈ x.rows.nodes.keys ∧
        (x.rows.nodes.row n).status = .DEAD_LETTERED) ∨
    ∃ x, ExecutionEngine.find env db e owner = some x ∧ n ∈ x.rows.nodes.keys ∧
      (x.rows.nodes.row n).status = .DEAD_LETTERED ∧
      (if (unresolved x.rows.dead_letter_jobs n).length ≤ 1 ∧
          (x.rows.nodes.row n).attempt + 1 < 2 ^ 31 then
        ∃ db' dto, ExecutionEngine.retry_node env db e n owner now = .ok (db', dto) ∧
          dto.attempt = (x.rows.nodes.row n).attempt + 1 ∧
          dto.max_attempts = (x.rows.nodes.row n).max_attempts ∧
          dto.input_payload = x.node_input n ∧
          dto.output_payload = (x.rows.nodes.row n).output_payload
      else ∃ err, ExecutionEngine.retry_node env db e n owner now = .error err ∧
        ∀ error, err ≠ .engine (.app error)) := by
  unfold ExecutionEngine.retry_node
  cases hget : db.executions.get? e with
  | none =>
      refine .inl ⟨_, rfl, ?_⟩
      rintro ⟨x, hx, -⟩
      rw [(find_eq_some_iff.mp hx).1] at hget
      cases hget
  | some x =>
      dsimp only
      by_cases hretry : Retryable env (x.rows.load e now) n owner
      · refine .inr ?_
        obtain ⟨session, -, hsame, hnodes, hrun⟩ :=
          retry_node_of_retryable x.rows.dead_letter_jobs hretry
        obtain ⟨node, hnode, howner, hst⟩ := hretry
        obtain ⟨hkey, rfl⟩ := Table.get?_eq_some_iff.mp hnode
        refine ⟨x, find_eq_some_iff.mpr ⟨hget, howner⟩, hkey, hst, ?_⟩
        have hrow : session.nodes.row n = (x.rows.nodes.row n).enter .QUEUED now := by
          rw [hnodes]
          exact Table.row_set_self ..
        -- the instances are current, so the commit stores the session's row
        have hstored : (x.rows.commit (x.rows.load e now) session).nodes.row n
            = (x.rows.nodes.row n).enter .QUEUED now := by
          rw [commit_nodes_of_loaded hsame.steps.sameFrame rfl, hrow]
        rw [hrun]
        by_cases hfew : 2 ≤ (unresolved x.rows.dead_letter_jobs n).length
        · rw [if_pos hfew, if_neg (by omega)]
          exact ⟨_, rfl, nofun⟩
        · rw [if_neg hfew]
          dsimp only
          rw [hrow, NodeExecution.enter_queued_attempt]
          by_cases hlarge : 2 ^ 31 ≤ (x.rows.nodes.row n).attempt + 1
          · rw [if_pos hlarge, if_neg (by omega)]
            exact ⟨_, rfl, nofun⟩
          · rw [if_neg hlarge, if_pos (by omega)]
            refine ⟨_, _, rfl, ?_, ?_, rfl, ?_⟩
            · exact (congrArg NodeExecution.attempt hstored).trans
                (NodeExecution.enter_queued_attempt ..)
            · exact (congrArg NodeExecution.max_attempts hstored).trans
                (NodeExecution.enter_max_attempts ..)
            · exact (congrArg NodeExecution.output_payload hstored).trans
                (NodeExecution.enter_output_payload ..)
      · obtain ⟨error, herror⟩ :=
          retry_node_of_not_retryable x.rows.dead_letter_jobs hretry
        rw [herror]
        refine .inl ⟨error, rfl, ?_⟩
        rintro ⟨y, hy, hkey, hst⟩
        obtain ⟨hy, howner⟩ := find_eq_some_iff.mp hy
        rw [hget, Option.some.injEq] at hy
        subst hy
        exact hretry ⟨_, Table.get?_of_mem hkey, howner, hst⟩

/-- A call that succeeds in process is alike if and only if it succeeds over
gRPC. -/
theorem ok_alike_iff {Q : Prop} :
    ((∀ error : AppError, (.ok () : Except TransportError Unit) ≠ .error (.engine (.app error))) ∧
      ((.ok () : Except TransportError Unit) = .ok () → Q)) ↔ Q := by
  constructor
  · intro h
    exact h.2 rfl
  · intro h
    refine ⟨fun error hne => ?_, fun _ => h⟩
    cases hne

/-- A retry over gRPC that returns locally: the node has to be sent. -/
theorem over_grpc_retry_iff (hP : P.Laws) {n : String} {db' : Database} {dto : NodeExecutionDTO}
    (h : ExecutionEngine.retry_node env db e n owner now = .ok (db', dto))
    (hattempt : dto.attempt < 2 ^ 31) (hmax : dto.max_attempts < 2 ^ 31) :
    (Call.retry_node e n owner now).over_grpc P env db = .ok () ↔ dto.Storable := by
  have hrun : (Call.retry_node e n owner now).over_grpc P env db = .ok () ↔
      ∃ msg, ExecutionEngineServiceServicer.RetryNode P env db e n owner now = .ok msg :=
    outcome_stub_ok_iff _ _
  rw [hrun, ExecutionEngineServiceServicer.RetryNode, internal_ok_iff, h]
  exact map_node_ok_iff hP hattempt hmax

/-- A retry raises no `AppError`, and returns over gRPC if it returns at all, exactly
where the checks pass and what is sent back fits: either the database refuses it in both,
or no integer in the payloads of the node overflows a double. -/
theorem retry_alike_iff (hP : P.Laws) (hdb : db.Integers) {n : String} :
    ((∀ error, (Call.retry_node e n owner now).in_process env db
        ≠ .error (.engine (.app error))) ∧
      ((Call.retry_node e n owner now).in_process env db = .ok () →
        (Call.retry_node e n owner now).over_grpc P env db = .ok ())) ↔
      (Call.retry_node e n owner now).FailsAlikeWhen env db := by
  have hrun : (Call.retry_node e n owner now).in_process env db
      = outcome ((ExecutionEngine.retry_node env db e n owner now).map Prod.snd) := rfl
  rcases retry_node_cases env db e n owner now with
    ⟨error, herror, hnot⟩ | ⟨x, hx, hkey, hst, hcase⟩
  · refine iff_of_false (fun h => h.1 error ?_) ?_
    · rw [hrun, herror]
      rfl
    · rintro ⟨x, hx, hkey, hst, -⟩
      exact hnot ⟨x, hx, hkey, hst⟩
  · have hwhen : (Call.retry_node e n owner now).FailsAlikeWhen env db ↔
        ((unresolved x.rows.dead_letter_jobs n).length ≤ 1 →
          (x.rows.nodes.row n).attempt + 1 < 2 ^ 31 →
          Storable (x.node_input n) ∧ Storable (x.rows.nodes.row n).output_payload) := by
      constructor
      · rintro ⟨y, hy, -, -, h⟩
        rw [hx, Option.some.injEq] at hy
        exact hy ▸ h
      · exact fun h => ⟨x, hx, hkey, hst, h⟩
    rw [hwhen, hrun]
    split at hcase
    · rename_i hfits
      obtain ⟨db', dto, hok, hattempt, hmax, hinput, houtput⟩ := hcase
      obtain ⟨hmem, rfl⟩ := Table.get?_eq_some_iff.mp (find_eq_some_iff.mp hx).1
      have hcolumn := (hdb e hmem n hkey).2
      rw [over_grpc_retry_iff hP hok (by omega) (by omega), NodeExecutionDTO.Storable, hinput,
        houtput, hok]
      refine ok_alike_iff.trans ?_
      exact ⟨fun h _ _ => h, fun h => h hfits.1 hfits.2⟩
    · -- the retry fails on the database, and nothing is promised
      rename_i hfits
      obtain ⟨err, herr, happ⟩ := hcase
      rw [herr]
      refine iff_of_true ⟨fun error h => happ error ?_, fun h => ?_⟩ fun hone hsmall =>
        absurd ⟨hone, hsmall⟩ hfits
      · cases h
        rfl
      · cases h

end Methods

/-! ## Every call -/

/-- **When a failure does not depend on the transport.** For every stored state and every
call: exactly when no check of the engine refuses the call, the payload to start with is
flat, the numbers of a listing fit `int32`, and no integer in what is sent overflows a
double. A call that raises an `AppError` in the process raises something else over gRPC,
so such calls are excluded. For all others it has to be shown when a call that returns
also returns over gRPC, and this is one computation for each method, along the request,
the engine and the response. -/
theorem fails_alike_iff (P : Protobuf) (hP : P.Laws) (env : Env) (db : Database)
    (hdb : db.Integers) (hmax : 2 ^ 31 ≤ db.int_max + 1) (c : Call) :
    FailsAlike (c.in_process env db) (c.over_grpc P env db) ↔ c.FailsAlikeWhen env db := by
  rw [Call.failsAlike_iff hP]
  cases c with
  | start_execution vid payload owner e now node_pk =>
      rcases in_process_start env db vid payload owner e now node_pk with
        ⟨hrun, hstart⟩ | ⟨error, hrun, hstart⟩
      · rw [hrun, over_grpc_start_iff hP hstart, ok_alike_iff]
        exact ⟨fun h => ⟨hstart, h⟩, fun h => h.2⟩
      · exact iff_of_false (fun h => h.1 error hrun) fun h => hstart h.1
  | get_execution e owner =>
      have hrun : (Call.get_execution e owner).in_process env db = .ok () := rfl
      rw [hrun, over_grpc_get_iff hP hdb]
      exact ok_alike_iff
  | list_executions owner status limit offset =>
      rcases in_process_list env db owner status limit offset with
        ⟨error, hrun, hst⟩ | ⟨st, hst, hrun⟩
      · refine iff_of_false (fun h => h.1 error hrun) ?_
        rintro ⟨st, hok, -⟩
        exact hst ⟨st, hok⟩
      · rw [hrun, over_grpc_list_iff hP hmax hst]
        have hwhen : (Call.list_executions owner status limit offset).FailsAlikeWhen env db ↔
            (limit ≤ db.int_max → offset ≤ db.int_max → limit < 2 ^ 31 ∧ offset < 2 ^ 31 ∧
              ∀ dto ∈ ExecutionEngine.page env db owner st (server_limit limit) offset,
                Storable dto.input_payload) := by
          constructor
          · rintro ⟨st', hst', h⟩
            rw [hst, Except.ok.injEq] at hst'
            exact hst' ▸ h
          · exact fun h => ⟨st, hst, h⟩
        rw [hwhen]
        by_cases hfits : limit ≤ db.int_max ∧ offset ≤ db.int_max
        · rw [if_pos hfits, ok_alike_iff]
          exact ⟨fun h _ _ => h, fun h => h hfits.1 hfits.2⟩
        · -- numbers that the database refuses locally; nothing is promised then
          rw [if_neg hfits]
          exact iff_of_true ⟨nofun, nofun⟩ fun hl ho => absurd ⟨hl, ho⟩ hfits
  | get_node_executions e owner =>
      have hrun : (Call.get_node_executions e owner).in_process env db = .ok () := rfl
      rw [hrun, over_grpc_nodes_iff hP hdb]
      exact ok_alike_iff
  | retry_node e n owner now => exact retry_alike_iff hP hdb
  | delete_execution e owner =>
      cases hx : ExecutionEngine.find env db e owner with
      | none =>
          -- not found: an `AppError` here, INTERNAL there
          obtain ⟨error, hrun⟩ : ∃ error, (Call.delete_execution e owner).in_process env db
              = .error (.engine (.app error)) := by
            show ∃ error, outcome (Except.map _ (ExecutionEngine.delete_execution ..)) = _
            rw [ExecutionEngine.delete_execution, hx]
            exact ⟨_, rfl⟩
          refine iff_of_false (fun h => h.1 error hrun) ?_
          rintro ⟨x, hfind⟩
          rw [hx] at hfind
          cases hfind
      | some x =>
          have hlocal : (Call.delete_execution e owner).in_process env db = .ok () := by
            show outcome (Except.map _ (ExecutionEngine.delete_execution env db e owner)) = _
            rw [ExecutionEngine.delete_execution, hx]
            rfl
          have hgrpc : (Call.delete_execution e owner).over_grpc P env db = .ok () := by
            show outcome (GrpcExecutionEngineClient.delete_execution env db e owner) = _
            rw [GrpcExecutionEngineClient.delete_execution,
              ExecutionEngineServiceServicer.DeleteExecution, ExecutionEngine.delete_execution, hx]
            rfl
          rw [hlocal, hgrpc]
          exact iff_of_true ⟨nofun, fun _ => rfl⟩ ⟨x, hx⟩

theorem one_execution_integers : one_execution.Integers := by
  intro e _ n hn
  cases hn

/-- The API answers 404 to the deletion of an unknown execution, and 500 over
gRPC. -/
theorem not_fails_alike : ¬ ∀ (P : Protobuf), P.Laws → ∀ (env : Env) (db : Database),
    db.Integers → 2 ^ 31 ≤ db.int_max + 1 → ∀ c : Call,
    FailsAlike (c.in_process env db) (c.over_grpc P env db) := by
  intro h
  obtain ⟨error, herror, -⟩ := (h struct_pb2 struct_pb2_laws (env_of solo) one_execution
    one_execution_integers (by decide) (.delete_execution 8 0)).app _ rfl
  cases herror

/-- Reading the one that is there does not depend on the transport. -/
theorem fails_alike_iff_get :
    FailsAlike ((Call.get_execution 7 0).in_process (env_of solo) one_execution)
      ((Call.get_execution 7 0).over_grpc struct_pb2 (env_of solo) one_execution) := by
  refine (fails_alike_iff struct_pb2 struct_pb2_laws (env_of solo) one_execution
    one_execution_integers (by decide) (.get_execution 7 0)).mpr ?_
  intro x hx
  cases hx
  exact ⟨⟨_, rfl⟩, nofun⟩

end EventFlow
