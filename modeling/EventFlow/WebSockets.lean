/-
Live updates: `websocket/connection_manager.py`, `api/websocket.py` and the
listener of `main.py`.

The listener takes one message at a time off the Redis channel and broadcasts it
to a snapshot of the sockets of its execution; sockets connect, break and leave
at any moment in between. `Hub` is the state of the API process, and the actions
are the pieces of its coroutines between two points where another one may run. A
broadcast is therefore not one step: it is `take`, then a `send` for each socket
of the snapshot, then a `drop` for each socket that turned out to be broken.

The order in which a Python `set` is iterated is unspecified; the action that
takes the snapshot names it. A socket that has been closed or whose connection is
gone makes `send_json` raise.

The channel carries the envelopes that sessions have staged. What a worker
publishes about itself (`worker_updated`) travels on it too, says nothing of an
execution's rows, and is left out.

[`HubInv`] is the invariant: a socket has been sent a feed of the channel
(`Library/Feed.lean`) that is complete, up to the broadcast in progress, as long
as it is registered and has not broken.
-/
import EventFlow.Effect
import EventFlow.Library.Feed

set_option autoImplicit false

namespace EventFlow

open Feed

/-! ## The API process -/

/-- A message to a client. -/
inductive Frame where
  | ping
  | event (envelope : Envelope)

/-- The envelopes among the frames. -/
def Frame.envelope? : Frame → Option Envelope
  | .ping => none
  | .event envelope => some envelope

/-- Where the endpoint of a socket is. -/
inductive Stage where
  /-- The handshake has come in. -/
  | opened
  /-- `_authorize` has returned `True`. -/
  | authorized
  /-- Closed with code 1008, before it was accepted. -/
  | rejected
  /-- In the receive loop. -/
  | registered
  /-- The endpoint has returned. -/
  | closed
deriving DecidableEq, Repr

/-- A socket: the execution it was opened for, and the API key its token stands
for, if it stands for one. `since` is a history variable: how many messages the
listener had taken when the socket was registered. -/
structure Socket where
  execution_id : ℕ
  api_key_id : Option ℕ
  stage : Stage := .opened
  broken : Bool := false
  frames : List Frame := []
  since : ℕ := 0

/-- A broadcast in progress: the sockets of the snapshot that are still to be
sent to, and those that have raised. -/
structure Broadcast where
  message : Envelope
  sockets : List ℕ
  broken : List ℕ := []

/-- The state of the API process; `connections` is `_connections`. -/
structure Hub where
  connections : ℕ → Option (List ℕ)
  sockets : ℕ → Option Socket
  taken : ℕ
  broadcasting : Option Broadcast

namespace Hub

def init : Hub where
  connections := fun _ => none
  sockets := fun _ => none
  taken := 0
  broadcasting := none

/-- `self._connections.get(execution_id, ())`. -/
def bucket (h : Hub) (e : ℕ) : List ℕ := (h.connections e).getD []

/-- `ConnectionManager.connect`. -/
def connect (h : Hub) (e k : ℕ) : Hub :=
  let sockets := h.bucket e
  let sockets := if k ∈ sockets then sockets else sockets ++ [k]
  { h with connections := Function.update h.connections e (some sockets) }

/-- `ConnectionManager.disconnect`: the bucket goes with its last socket. -/
def disconnect (h : Hub) (e k : ℕ) : Hub :=
  match h.connections e with
  | none => h
  | some sockets =>
    let sockets := sockets.erase k
    let sockets := if sockets = [] then none else some sockets
    { h with connections := Function.update h.connections e sockets }

/-- An assignment to one socket. -/
def set_socket (h : Hub) (k : ℕ) (socket : Socket) : Hub :=
  { h with sockets := Function.update h.sockets k (some socket) }

end Hub

/-- The pieces of the coroutines of the API process. -/
inductive HubAction where
  /-- A client opens a socket. -/
  | opened (k execution_id : ℕ) (api_key_id : Option ℕ)
  | authorize (k : ℕ)
  /-- `accept` and `connect`. -/
  | connect (k : ℕ)
  /-- `accept` raises, the client is gone. -/
  | abort (k : ℕ)
  /-- The receive loop ends and the endpoint returns. -/
  | disconnect (k : ℕ)
  /-- The connection of a client breaks. -/
  | broke (k : ℕ)
  | ping (k : ℕ)
  /-- The listener takes the next message; `order` is the order of the snapshot. -/
  | take (order : List ℕ)
  | send
  | drop
  /-- The broadcast returns. -/
  | done
  /-- The process is restarted: it subscribes again and knows no socket. -/
  | restart

/-- `_authorize`: the token is valid and its key owns the execution. -/
def authorize (env : Env) (s : Sys) (socket : Socket) : Bool :=
  match socket.api_key_id, s.executions socket.execution_id with
  | some owner, some rows => env.owner rows.execution = some owner
  | _, _ => false

/-- One piece. The store and the channel are read and not written. -/
def Hub.act (env : Env) (s : Sys) (h : Hub) : HubAction → Option Hub
  | .opened k e key =>
    match h.sockets k with
    | none => some (h.set_socket k { execution_id := e, api_key_id := key })
    | some _ => none
  | .authorize k =>
    match h.sockets k with
    | some socket =>
      if socket.stage = .opened then
        some (h.set_socket k
          { socket with stage := if authorize env s socket then .authorized else .rejected })
      else none
    | none => none
  | .connect k =>
    match h.sockets k with
    | some socket =>
      if socket.stage = .authorized then
        some ((h.connect socket.execution_id k).set_socket k
          { socket with stage := .registered, since := h.taken })
      else none
    | none => none
  | .abort k =>
    match h.sockets k with
    | some socket =>
      if socket.stage = .authorized then
        some (h.set_socket k { socket with stage := .closed, broken := true })
      else none
    | none => none
  | .disconnect k =>
    match h.sockets k with
    | some socket =>
      if socket.stage = .registered then
        some ((h.disconnect socket.execution_id k).set_socket k
          { socket with stage := .closed, broken := true })
      else none
    | none => none
  | .broke k =>
    match h.sockets k with
    | some socket => some (h.set_socket k { socket with broken := true })
    | none => none
  | .ping k =>
    match h.sockets k with
    | some socket =>
      if socket.stage = .registered ∧ socket.broken = false then
        some (h.set_socket k { socket with frames := socket.frames ++ [.ping] })
      else none
    | none => none
  | .take order =>
    match h.broadcasting, s.channel[h.taken]? with
    | none, some message =>
      if order.Perm (h.bucket message.execution_id) then
        some { h with
          taken := h.taken + 1
          -- without sockets `broadcast` returns at once
          broadcasting := if order = [] then none else some { message, sockets := order } }
      else none
    | _, _ => none
  | .send =>
    match h.broadcasting with
    | some ⟨message, k :: sockets, broken⟩ =>
      match h.sockets k with
      | some socket =>
        if socket.broken then
          some { h with broadcasting := some ⟨message, sockets, broken ++ [k]⟩ }
        else
          some { h.set_socket k { socket with frames := socket.frames ++ [.event message] } with
            broadcasting := some ⟨message, sockets, broken⟩ }
      | none => none
    | _ => none
  | .drop =>
    match h.broadcasting with
    | some ⟨message, [], k :: broken⟩ =>
      some { h.disconnect message.execution_id k with
        broadcasting := some ⟨message, [], broken⟩ }
    | _ => none
  | .done =>
    match h.broadcasting with
    | some ⟨_, [], []⟩ => some { h with broadcasting := none }
    | _ => none
  | .restart =>
    some { h with
      connections := fun _ => none
      sockets := fun k => (h.sockets k).map fun socket =>
        { socket with stage := .closed, broken := true }
      taken := s.channel.length
      broadcasting := none }

/-! ## The invariant -/

/-- The topic of a socket. -/
def about (e : ℕ) (envelope : Envelope) : Bool := decide (envelope.execution_id = e)

/-- The envelopes that a socket has been sent. -/
def Socket.events (socket : Socket) : List Envelope := socket.frames.filterMap Frame.envelope?

/-- Socket `k` is still to be sent the message of the broadcast in progress. -/
def Hub.pending (h : Hub) (k : ℕ) : Bool :=
  match h.broadcasting with
  | some broadcast => decide (k ∈ broadcast.sockets)
  | none => false

/-- How far along the channel socket `k` has been served. -/
def Hub.served (h : Hub) (k : ℕ) : ℕ := if h.pending k then h.taken - 1 else h.taken

/-- A socket that is in its receive loop and can be sent to. -/
def Socket.live (socket : Socket) : Prop := socket.stage = .registered ∧ socket.broken = false

/-- What holds of the API process beside a channel. -/
structure HubInv (channel : List Envelope) (h : Hub) : Prop where
  taken_le : h.taken ≤ channel.length
  /-- No bucket is empty, and the sockets in a bucket were opened for it. -/
  bucket : ∀ e ks, h.connections e = some ks → ks ≠ [] ∧ ks.Nodup ∧
    ∀ k ∈ ks, ∃ socket, h.sockets k = some socket ∧ socket.execution_id = e ∧
      socket.stage = .registered
  /-- The broadcast in progress is of the last message taken. -/
  snapshot : ∀ broadcast, h.broadcasting = some broadcast → 0 < h.taken ∧
    channel[h.taken - 1]? = some broadcast.message ∧ broadcast.sockets.Nodup ∧
    ∀ k ∈ broadcast.sockets, ∃ socket, h.sockets k = some socket ∧
      socket.execution_id = broadcast.message.execution_id ∧ socket.since < h.taken ∧
      (socket.stage = .registered ∨ socket.stage = .closed)
  /-- Only broken sockets are dropped. -/
  dropped : ∀ broadcast, h.broadcasting = some broadcast → ∀ k ∈ broadcast.broken,
    ∃ socket, h.sockets k = some socket ∧ socket.broken = true
  since_le : ∀ k socket, h.sockets k = some socket → socket.since ≤ h.taken
  closed : ∀ k socket, h.sockets k = some socket → socket.stage = .closed →
    socket.broken = true
  /-- Nothing is sent before a socket is registered. -/
  early : ∀ k socket, h.sockets k = some socket → socket.stage ≠ .registered →
    socket.stage ≠ .closed → socket.events = []
  /-- Whatever a socket has been sent is the beginning of its feed. -/
  fed : ∀ k socket, h.sockets k = some socket →
    socket.events <+: feed (about socket.execution_id) channel socket.since h.taken
  /-- A live socket has been sent all of it. -/
  complete : ∀ k socket, h.sockets k = some socket → socket.live →
    k ∈ h.bucket socket.execution_id ∧
      socket.events = feed (about socket.execution_id) channel socket.since (h.served k)

section HubInv

variable {env : Env} {s : Sys} {h h' : Hub} {channel : List Envelope} {k e : ℕ}
  {socket : Socket}

theorem hubInv_init : HubInv [] Hub.init := by
  constructor <;> simp [Hub.init]

/-- A served position has been taken. -/
theorem Hub.served_le (h : Hub) (k : ℕ) : h.served k ≤ h.taken := by
  unfold Hub.served
  split <;> omega

theorem Hub.served_of_not_pending (hp : h.pending k = false) : h.served k = h.taken := by
  simp [Hub.served, hp]

theorem Hub.pending_iff : h.pending k = true ↔
    ∃ broadcast, h.broadcasting = some broadcast ∧ k ∈ broadcast.sockets := by
  unfold Hub.pending
  cases h.broadcasting <;> simp

theorem Hub.pending_of_none (hb : h.broadcasting = none) : h.pending k = false := by
  simp [Hub.pending, hb]

/-- The channel grows behind what has been taken. -/
theorem HubInv.append (hi : HubInv channel h) (more : List Envelope) :
    HubInv (channel ++ more) h := by
  have hfeed : ∀ (p : Envelope → Bool) a b, b ≤ h.taken →
      feed p (channel ++ more) a b = feed p channel a b :=
    fun p a b hb => feed_append (hb.trans hi.taken_le)
  refine ⟨?_, hi.bucket, fun broadcast hb => ?_, hi.dropped, hi.since_le, hi.closed, hi.early,
    fun k socket hs => ?_, fun k socket hs hlive => ?_⟩
  · rw [List.length_append]
    exact hi.taken_le.trans (Nat.le_add_right _ _)
  · obtain ⟨hpos, hmsg, hrest⟩ := hi.snapshot broadcast hb
    refine ⟨hpos, ?_, hrest⟩
    rw [List.getElem?_append_left (by have := hi.taken_le; omega), hmsg]
  · rw [hfeed _ _ _ le_rfl]
    exact hi.fed k socket hs
  · rw [hfeed _ _ _ (h.served_le k)]
    exact hi.complete k socket hs hlive

theorem Hub.mem_bucket {ks : List ℕ} (hc : h.connections e = some ks) (hk : k ∈ ks) :
    k ∈ h.bucket e := by
  rw [Hub.bucket, hc]
  exact hk

/-- What a socket keeps when it moves on without being sent an event. -/
structure Socket.Moves (socket socket' : Socket) : Prop where
  execution_id : socket'.execution_id = socket.execution_id
  events : socket'.events = socket.events
  since : socket'.since = socket.since
  /-- It does not come to life. -/
  live : socket'.live → socket.live
  broken : socket.broken = true → socket'.broken = true
  registered : socket.stage = .registered → socket'.stage = .registered ∨ socket'.stage = .closed
  stays_closed : socket.stage = .closed → socket'.stage = .closed
  closed : socket'.stage = .closed → socket'.broken = true
  early : socket'.stage ≠ .registered → socket'.stage ≠ .closed → socket.events = []

/-- **One socket moves on.** It may only be closed when it is in no bucket. All fields of
the invariant speak of sockets one by one, so only those that mention socket `k` need a
look, and [`Socket.Moves`] says what they need. -/
theorem HubInv.set_socket {socket' : Socket} (hi : HubInv channel h)
    (hs : h.sockets k = some socket) (hm : socket.Moves socket')
    (hbucket : ∀ e, k ∈ h.bucket e → socket'.stage = .registered) :
    HubInv channel (h.set_socket k socket') := by
  have hsame : ∀ j, j ≠ k → (h.set_socket k socket').sockets j = h.sockets j :=
    fun j hj => Function.update_of_ne hj _ _
  have hself : (h.set_socket k socket').sockets k = some socket' := Function.update_self ..
  -- every socket of the new state has moved on from one of the old state
  have hback : ∀ j u, (h.set_socket k socket').sockets j = some u →
      ∃ v, h.sockets j = some v ∧ v.Moves u := by
    intro j u hu
    by_cases hj : j = k
    · subst hj
      rw [hself, Option.some.injEq] at hu
      exact ⟨socket, hs, hu ▸ hm⟩
    · rw [hsame j hj] at hu
      exact ⟨u, hu, rfl, rfl, rfl, id, id, .inl, id, hi.closed j u hu, hi.early j u hu⟩
  have hforth : ∀ j v, h.sockets j = some v →
      ∃ u, (h.set_socket k socket').sockets j = some u ∧ v.Moves u := by
    intro j v hv
    by_cases hj : j = k
    · subst hj
      rw [hs, Option.some.injEq] at hv
      exact ⟨socket', hself, hv ▸ hm⟩
    · exact ⟨v, by rw [hsame j hj, hv],
        rfl, rfl, rfl, id, id, .inl, id, hi.closed j v hv, hi.early j v hv⟩
  refine ⟨hi.taken_le, fun e ks hks => ?_, fun broadcast hb => ?_, fun broadcast hb j hj => ?_,
    fun j u hu => ?_, fun j u hu => ?_, fun j u hu => ?_, fun j u hu => ?_, fun j u hu hl => ?_⟩
  · obtain ⟨hne, hnd, hall⟩ := hi.bucket e ks hks
    refine ⟨hne, hnd, fun j hj => ?_⟩
    obtain ⟨v, hv, hve, hst⟩ := hall j hj
    by_cases hjk : j = k
    · subst hjk
      rw [hs, Option.some.injEq] at hv
      subst hv
      exact ⟨socket', hself, hm.execution_id.trans hve,
        hbucket e (Hub.mem_bucket hks hj)⟩
    · exact ⟨v, by rw [hsame j hjk, hv], hve, hst⟩
  · obtain ⟨hpos, hmsg, hnd, hall⟩ := hi.snapshot broadcast hb
    refine ⟨hpos, hmsg, hnd, fun j hj => ?_⟩
    obtain ⟨v, hv, hve, hlt, hst⟩ := hall j hj
    obtain ⟨u, hu, hvu⟩ := hforth j v hv
    exact ⟨u, hu, hvu.execution_id.trans hve, hvu.since ▸ hlt,
      hst.elim hvu.registered fun hcl => .inr (hvu.stays_closed hcl)⟩
  · obtain ⟨v, hv, hbr⟩ := hi.dropped broadcast hb j hj
    obtain ⟨u, hu, hvu⟩ := hforth j v hv
    exact ⟨u, hu, hvu.broken hbr⟩
  · obtain ⟨v, hv, hvu⟩ := hback j u hu
    rw [hvu.since]
    exact hi.since_le j v hv
  · obtain ⟨v, -, hvu⟩ := hback j u hu
    exact hvu.closed
  · obtain ⟨v, -, hvu⟩ := hback j u hu
    rw [hvu.events]
    exact hvu.early
  · obtain ⟨v, hv, hvu⟩ := hback j u hu
    rw [hvu.execution_id, hvu.events, hvu.since]
    exact hi.fed j v hv
  · obtain ⟨v, hv, hvu⟩ := hback j u hu
    rw [hvu.execution_id, hvu.events, hvu.since]
    exact hi.complete j v hv (hvu.live hl)

/-! ### Buckets -/

/-- Only registered sockets are in a bucket. -/
theorem HubInv.not_mem_bucket (hi : HubInv channel h) (hs : h.sockets k = some socket)
    (hst : socket.stage ≠ .registered) (e : ℕ) : k ∉ h.bucket e := by
  intro hk
  unfold Hub.bucket at hk
  cases hc : h.connections e with
  | none =>
      rw [hc] at hk
      cases hk
  | some ks =>
      rw [hc] at hk
      obtain ⟨v, hv, -, hreg⟩ := (hi.bucket e ks hc).2.2 k hk
      rw [hs, Option.some.injEq] at hv
      exact hst (hv ▸ hreg)

theorem Hub.bucket_of_some {ks : List ℕ} (hc : h.connections e = some ks) : h.bucket e = ks := by
  rw [Hub.bucket, hc, Option.getD_some]

theorem Hub.connections_of_mem (hk : k ∈ h.bucket e) :
    ∃ ks, h.connections e = some ks ∧ k ∈ ks := by
  unfold Hub.bucket at hk
  cases hc : h.connections e with
  | none =>
      rw [hc] at hk
      cases hk
  | some ks =>
      rw [hc] at hk
      exact ⟨ks, rfl, hk⟩

@[simp] theorem Hub.disconnect_sockets (h : Hub) (e k : ℕ) :
    (h.disconnect e k).sockets = h.sockets := by
  unfold Hub.disconnect
  split <;> rfl

@[simp] theorem Hub.disconnect_taken (h : Hub) (e k : ℕ) :
    (h.disconnect e k).taken = h.taken := by
  unfold Hub.disconnect
  split <;> rfl

@[simp] theorem Hub.disconnect_broadcasting (h : Hub) (e k : ℕ) :
    (h.disconnect e k).broadcasting = h.broadcasting := by
  unfold Hub.disconnect
  split <;> rfl

@[simp] theorem Hub.disconnect_served (h : Hub) (e k j : ℕ) :
    (h.disconnect e k).served j = h.served j := by
  unfold Hub.served Hub.pending
  rw [Hub.disconnect_broadcasting, Hub.disconnect_taken]

/-- What is left in the buckets after a disconnect. -/
theorem Hub.connections_disconnect {e' : ℕ} {ks : List ℕ}
    (hc : (h.disconnect e k).connections e' = some ks) :
    (e' ≠ e ∧ h.connections e' = some ks) ∨
      (e' = e ∧ ks ≠ [] ∧ ∃ old, h.connections e = some old ∧ ks = old.erase k) := by
  unfold Hub.disconnect at hc
  split at hc
  · rename_i hnone
    refine .inl ⟨?_, hc⟩
    rintro rfl
    rw [hnone] at hc
    cases hc
  · rename_i old hold
    by_cases he : e' = e
    · subst he
      simp only [Function.update_self] at hc
      split at hc
      · cases hc
      · rename_i hne
        cases hc
        exact .inr ⟨rfl, hne, old, hold, rfl⟩
    · simp only [Function.update_of_ne he] at hc
      exact .inl ⟨he, hc⟩

theorem Hub.bucket_disconnect (h : Hub) (e k e' : ℕ) :
    (h.disconnect e k).bucket e' = if e' = e then (h.bucket e).erase k else h.bucket e' := by
  unfold Hub.disconnect
  by_cases he : e' = e
  · subst he
    rw [if_pos rfl]
    split
    · rename_i hnone
      simp [Hub.bucket, hnone]
    · rename_i old hold
      simp only [Hub.bucket, Function.update_self, hold, Option.getD_some]
      split
      · rename_i hnil
        rw [hnil, Option.getD_none]
      · rfl
  · rw [if_neg he]
    split
    · rfl
    · simp only [Hub.bucket, Function.update_of_ne he]

/-- **A socket that is not live leaves its bucket.** Only completeness could suffer, and
it is promised to live sockets alone. -/
theorem HubInv.disconnect (hi : HubInv channel h) (hs : h.sockets k = some socket)
    (hdead : socket.broken = true) (e : ℕ) : HubInv channel (h.disconnect e k) := by
  refine ⟨by simpa using hi.taken_le, fun e' ks hks => ?_, by simpa using hi.snapshot,
    by simpa using hi.dropped, by simpa using hi.since_le, by simpa using hi.closed,
    by simpa using hi.early, by simpa using hi.fed, fun j u hu hl => ?_⟩
  · rw [Hub.disconnect_sockets]
    rcases Hub.connections_disconnect hks with ⟨-, hold⟩ | ⟨rfl, hne, old, hold, rfl⟩
    · exact hi.bucket e' ks hold
    · obtain ⟨-, hnd, hall⟩ := hi.bucket e' old hold
      exact ⟨hne, hnd.erase k, fun j hj => hall j (List.mem_of_mem_erase hj)⟩
  · rw [Hub.disconnect_sockets] at hu
    obtain ⟨hmem, hev⟩ := hi.complete j u hu hl
    have hjk : j ≠ k := by
      rintro rfl
      rw [hs, Option.some.injEq] at hu
      subst hu
      rw [hl.2] at hdead
      cases hdead
    refine ⟨?_, ?_⟩
    · rw [Hub.bucket_disconnect]
      split
      · rename_i he
        exact (List.mem_erase_of_ne hjk).mpr (he ▸ hmem)
      · exact hmem
    · rwa [Hub.disconnect_served]

/-- A socket that has left its bucket is in none. -/
theorem HubInv.not_mem_of_disconnect (hi : HubInv channel h) (hs : h.sockets k = some socket)
    (e : ℕ) : k ∉ (h.disconnect socket.execution_id k).bucket e := by
  rw [Hub.bucket_disconnect]
  have hown : k ∈ h.bucket e → e = socket.execution_id := by
    intro hk
    obtain ⟨ks, hc, hk⟩ := Hub.connections_of_mem hk
    obtain ⟨socket', hs', he, -⟩ := (hi.bucket e ks hc).2.2 k hk
    rw [hs, Option.some.injEq] at hs'
    rw [hs', he]
  split
  · rename_i he
    intro hk
    obtain ⟨ks, hc, hmem⟩ := Hub.connections_of_mem (List.mem_of_mem_erase hk)
    rw [Hub.bucket_of_some hc] at hk
    exact ((hi.bucket _ ks hc).2.1.mem_erase_iff.mp hk).1 rfl
  · rename_i he
    exact fun hk => he (hown hk)

/-- The endpoint of a registered socket returns, and takes it out of its bucket. It may
still be in the snapshot of a broadcast; then sending to it raises, and it is dropped a
second time, which does nothing. -/
theorem HubInv.close (hi : HubInv channel h) (hs : h.sockets k = some socket)
    (hst : socket.stage = .registered) :
    HubInv channel ((h.disconnect socket.execution_id k).set_socket k
      { socket with stage := .closed, broken := true }) := by
  -- breaking it first makes it a dead socket in a bucket
  have hbroken : HubInv channel (h.set_socket k { socket with broken := true }) := by
    refine hi.set_socket hs ⟨rfl, rfl, rfl, ?_, fun _ => rfl, .inl, id, fun _ => rfl, ?_⟩
      fun _ _ => hst
    · rintro ⟨-, hb⟩
      cases hb
    · exact fun hne => absurd hst hne
  have hself : (h.set_socket k { socket with broken := true }).sockets k
      = some { socket with broken := true } := Function.update_self ..
  have hmoves : Socket.Moves { socket with broken := true }
      { socket with stage := .closed, broken := true } := by
    refine ⟨rfl, rfl, rfl, ?_, fun _ => rfl, fun _ => .inr rfl, fun _ => rfl, fun _ => rfl, ?_⟩
    · rintro ⟨hcl, -⟩
      cases hcl
    · exact fun _ hne => absurd rfl hne
  have hgone := (hbroken.disconnect hself rfl socket.execution_id).set_socket
    (by rw [Hub.disconnect_sockets, hself]) hmoves
    (fun e hk => absurd hk (hbroken.not_mem_of_disconnect hself e))
  -- the two assignments to the socket are one
  have heq : ((h.set_socket k { socket with broken := true }).disconnect socket.execution_id
      k).set_socket k { socket with stage := .closed, broken := true }
        = (h.disconnect socket.execution_id k).set_socket k
          { socket with stage := .closed, broken := true } := by
    unfold Hub.disconnect Hub.set_socket
    cases h.connections socket.execution_id <;> simp only [Function.update_idem]
  rwa [heq] at hgone

/-- **A socket is registered**: its feed begins here. It is in no snapshot, so a broadcast
in progress passes it by, and that message lies before `since`. -/
theorem HubInv.connect (hi : HubInv channel h) (hs : h.sockets k = some socket)
    (hst : socket.stage = .authorized) :
    HubInv channel ((h.connect socket.execution_id k).set_socket k
      { socket with stage := .registered, since := h.taken }) := by
  have hnone : socket.events = [] := hi.early k socket hs (by simp [hst]) (by simp [hst])
  have hself : ((h.connect socket.execution_id k).set_socket k
      { socket with stage := .registered, since := h.taken }).sockets k
        = some { socket with stage := .registered, since := h.taken } := Function.update_self ..
  have hsame : ∀ j, j ≠ k → ((h.connect socket.execution_id k).set_socket k
      { socket with stage := .registered, since := h.taken }).sockets j = h.sockets j :=
    fun j hj => Function.update_of_ne hj _ _
  -- a socket that is not registered is in no bucket and in no snapshot
  have hnotin : ∀ e, k ∉ h.bucket e := hi.not_mem_bucket hs (by simp [hst])
  -- the bucket of its execution has it now, and the other buckets are as they were
  have hnew : (h.connect socket.execution_id k).bucket socket.execution_id
      = h.bucket socket.execution_id ++ [k] := by
    change (Function.update h.connections socket.execution_id (some (if k ∈ h.bucket
      socket.execution_id then _ else _)) socket.execution_id).getD [] = _
    rw [Function.update_self, Option.getD_some, if_neg (hnotin _)]
  have hold : ∀ e, e ≠ socket.execution_id →
      (h.connect socket.execution_id k).connections e = h.connections e :=
    fun e he => Function.update_of_ne he _ _
  have hserved : ∀ j, ((h.connect socket.execution_id k).set_socket k
      { socket with stage := .registered, since := h.taken }).served j = h.served j := fun _ => rfl
  have hnotpending : h.pending k = false := by
    refine Bool.eq_false_iff.mpr fun hp => ?_
    obtain ⟨broadcast, hb, hk⟩ := Hub.pending_iff.mp hp
    obtain ⟨v, hv, -, -, hreg⟩ := (hi.snapshot broadcast hb).2.2.2 k hk
    rw [hs, Option.some.injEq] at hv
    subst hv
    rw [hst] at hreg
    rcases hreg with hreg | hreg <;> cases hreg
  refine ⟨hi.taken_le, fun e ks hks => ?_, fun broadcast hb => ?_, fun broadcast hb j hj => ?_,
    fun j u hu => ?_, fun j u hu => ?_, fun j u hu => ?_, fun j u hu => ?_, fun j u hu hl => ?_⟩
  · by_cases he : e = socket.execution_id
    · subst he
      have hks' : ks = h.bucket socket.execution_id ++ [k] := by
        rw [← hnew]
        exact (Hub.bucket_of_some hks).symm
      subst hks'
      refine ⟨by simp, ?_, fun j hj => ?_⟩
      · refine List.nodup_append.mpr ⟨?_, List.nodup_singleton _, ?_⟩
        · cases hc : h.connections socket.execution_id with
          | none => simp [Hub.bucket, hc]
          | some old =>
              rw [Hub.bucket_of_some hc]
              exact (hi.bucket _ old hc).2.1
        · intro a ha b hb
          rw [List.mem_singleton] at hb
          rintro rfl
          exact hnotin _ (hb ▸ ha)
      · rcases List.mem_append.mp hj with hj | hj
        · obtain ⟨old, hc, hj'⟩ := Hub.connections_of_mem hj
          obtain ⟨v, hv, hve, hreg⟩ := (hi.bucket _ old hc).2.2 j hj'
          have hjk : j ≠ k := fun heq => hnotin _ (heq ▸ hj)
          exact ⟨v, by rw [hsame j hjk, hv], hve, hreg⟩
        · rw [List.mem_singleton] at hj
          subst hj
          exact ⟨_, hself, rfl, rfl⟩
    · have hks : h.connections e = some ks := (hold e he).symm.trans hks
      obtain ⟨hne, hnd, hall⟩ := hi.bucket e ks hks
      refine ⟨hne, hnd, fun j hj => ?_⟩
      obtain ⟨v, hv, hve, hreg⟩ := hall j hj
      have hjk : j ≠ k := fun heq => hnotin e (heq ▸ Hub.mem_bucket hks hj)
      exact ⟨v, by rw [hsame j hjk, hv], hve, hreg⟩
  · obtain ⟨hpos, hmsg, hnd, hall⟩ := hi.snapshot broadcast hb
    refine ⟨hpos, hmsg, hnd, fun j hj => ?_⟩
    obtain ⟨v, hv, hve, hlt, hreg⟩ := hall j hj
    have hjk : j ≠ k := by
      rintro rfl
      have hp : h.pending j = true := Hub.pending_iff.mpr ⟨broadcast, hb, hj⟩
      rw [hnotpending] at hp
      cases hp
    exact ⟨v, by rw [hsame j hjk, hv], hve, hlt, hreg⟩
  · obtain ⟨v, hv, hbr⟩ := hi.dropped broadcast hb j hj
    by_cases hjk : j = k
    · subst hjk
      rw [hs, Option.some.injEq] at hv
      subst hv
      exact ⟨_, hself, hbr⟩
    · exact ⟨v, by rw [hsame j hjk, hv], hbr⟩
  · by_cases hjk : j = k
    · subst hjk
      rw [hself, Option.some.injEq] at hu
      rw [← hu]
      exact le_rfl
    · rw [hsame j hjk] at hu
      exact hi.since_le j u hu
  · by_cases hjk : j = k
    · subst hjk
      rw [hself, Option.some.injEq] at hu
      rw [← hu]
      intro hcl
      cases hcl
    · rw [hsame j hjk] at hu
      exact hi.closed j u hu
  · by_cases hjk : j = k
    · subst hjk
      rw [hself, Option.some.injEq] at hu
      rw [← hu]
      exact fun hne => absurd rfl hne
    · rw [hsame j hjk] at hu
      exact hi.early j u hu
  · by_cases hjk : j = k
    · subst hjk
      rw [hself, Option.some.injEq] at hu
      rw [← hu]
      change socket.events <+: _
      rw [hnone]
      exact List.nil_prefix
    · rw [hsame j hjk] at hu
      exact hi.fed j u hu
  · rw [hserved]
    by_cases hjk : j = k
    · subst hjk
      rw [hself, Option.some.injEq] at hu
      rw [← hu]
      refine ⟨?_, ?_⟩
      · change j ∈ (h.connect socket.execution_id j).bucket socket.execution_id
        rw [hnew]
        simp
      · change socket.events = feed _ channel h.taken (h.served j)
        rw [hnone, Hub.served_of_not_pending hnotpending, feed_self]
    · rw [hsame j hjk] at hu
      obtain ⟨hmem, hev⟩ := hi.complete j u hu hl
      refine ⟨?_, hev⟩
      change j ∈ (h.connect socket.execution_id k).bucket u.execution_id
      by_cases he : u.execution_id = socket.execution_id
      · rw [he, hnew]
        exact List.mem_append_left _ (he ▸ hmem)
      · rw [Hub.bucket, hold _ he]
        exact hmem

/-- The listener takes a message: the sockets of its execution have one to come, the
others are not concerned. What a socket of the snapshot still has to be sent is this one
message; [`Hub.pending`] says for whom that is so, and completeness is stated up to it. -/
theorem HubInv.take (hi : HubInv channel h) {message : Envelope} {order : List ℕ}
    (hb : h.broadcasting = none) (hm : channel[h.taken]? = some message)
    (horder : order.Perm (h.bucket message.execution_id)) :
    HubInv channel { h with
      taken := h.taken + 1
      broadcasting := if order = [] then none else some { message, sockets := order } } := by
  have hlt : h.taken < channel.length := (List.getElem?_eq_some_iff.mp hm).choose
  -- who is in the bucket is in the snapshot
  have hpending : ∀ j, Hub.pending { h with
      taken := h.taken + 1
      broadcasting := if order = [] then none else some { message, sockets := order } } j
        = decide (j ∈ h.bucket message.execution_id) := by
    intro j
    unfold Hub.pending
    by_cases hnil : order = []
    · have hempty : h.bucket message.execution_id = [] := by
        rw [hnil] at horder
        exact horder.symm.eq_nil
      simp [hnil, hempty]
    · simp [hnil, horder.mem_iff]
  have hbroadcast : ∀ broadcast, (if order = [] then none else
      some ({ message, sockets := order } : Broadcast)) = some broadcast →
      broadcast = { message, sockets := order } := by
    intro broadcast heq
    split at heq
    · cases heq
    · exact (Option.some.inj heq).symm
  refine ⟨hlt, hi.bucket, fun broadcast heq => ?_, fun broadcast heq j hj => ?_, fun j u hu => ?_,
    hi.closed, hi.early, fun j u hu => ?_, fun j u hu hl => ?_⟩
  · obtain rfl := hbroadcast broadcast heq
    refine ⟨Nat.succ_pos _, hm, ?_, fun j hj => ?_⟩
    · cases hc : h.connections message.execution_id with
      | none =>
          rw [Hub.bucket, hc] at horder
          rw [horder.eq_nil]
          exact List.nodup_nil
      | some old =>
          rw [Hub.bucket_of_some hc] at horder
          exact horder.nodup_iff.mpr (hi.bucket _ old hc).2.1
    · obtain ⟨old, hc, hj⟩ := Hub.connections_of_mem (horder.mem_iff.mp hj)
      obtain ⟨v, hv, hve, hreg⟩ := (hi.bucket _ old hc).2.2 j hj
      exact ⟨v, hv, hve, Nat.lt_succ_of_le (hi.since_le j v hv), .inl hreg⟩
  · obtain rfl := hbroadcast broadcast heq
    cases hj
  · exact (hi.since_le j u hu).trans (Nat.le_succ _)
  · rw [feed_succ (hi.since_le j u hu) hm]
    exact (hi.fed j u hu).trans (List.prefix_append _ _)
  · obtain ⟨hmem, hev⟩ := hi.complete j u hu hl
    refine ⟨hmem, ?_⟩
    rw [Hub.served_of_not_pending (Hub.pending_of_none hb)] at hev
    unfold Hub.served
    rw [hpending]
    by_cases hj : j ∈ h.bucket message.execution_id
    · rw [if_pos (decide_eq_true hj)]
      exact hev
    · -- a live socket outside the bucket is on another execution
      have hne : message.execution_id ≠ u.execution_id := by
        intro heq
        rw [heq] at hj
        exact hj hmem
      rw [if_neg (by simpa using hj)]
      rw [feed_succ (hi.since_le j u hu) hm, about, if_neg (by simpa using hne), List.append_nil]
      exact hev

/-- The next socket of the snapshot raises. It is not live any more, so nothing is
promised to it; it is remembered, to be dropped after the loop. -/
theorem HubInv.send_broken (hi : HubInv channel h) {message : Envelope} {sockets broken : List ℕ}
    (hb : h.broadcasting = some ⟨message, k :: sockets, broken⟩)
    (hs : h.sockets k = some socket) (hbr : socket.broken = true) :
    HubInv channel { h with broadcasting := some ⟨message, sockets, broken ++ [k]⟩ } := by
  obtain ⟨hpos, hmsg, hnd, hall⟩ := hi.snapshot _ hb
  refine ⟨hi.taken_le, hi.bucket, fun broadcast heq => ?_, fun broadcast heq j hj => ?_,
    hi.since_le, hi.closed, hi.early, hi.fed, fun j u hu hl => ?_⟩
  · cases heq
    exact ⟨hpos, hmsg, (List.nodup_cons.mp hnd).2, fun j hj => hall j (List.mem_cons_of_mem _ hj)⟩
  · cases heq
    rcases List.mem_append.mp hj with hj | hj
    · exact hi.dropped _ hb j hj
    · rw [List.mem_singleton] at hj
      subst hj
      exact ⟨socket, hs, hbr⟩
  · obtain ⟨hmem, hev⟩ := hi.complete j u hu hl
    refine ⟨hmem, ?_⟩
    have hjk : j ≠ k := by
      rintro rfl
      rw [hs, Option.some.injEq] at hu
      subst hu
      rw [hl.2] at hbr
      cases hbr
    have hserved : Hub.served { h with broadcasting := some ⟨message, sockets, broken ++ [k]⟩ } j
        = h.served j := by
      unfold Hub.served Hub.pending
      rw [hb]
      simp only [List.mem_cons, hjk, false_or]
    rw [hserved]
    exact hev

/-- **The next socket of the snapshot is sent the message.** With this its feed is
complete up to `taken`, because the message was all that was missing. The others still
wait, or have been served. -/
theorem HubInv.send (hi : HubInv channel h) {message : Envelope} {sockets broken : List ℕ}
    (hb : h.broadcasting = some ⟨message, k :: sockets, broken⟩)
    (hs : h.sockets k = some socket) (hok : socket.broken = false) :
    HubInv channel { h.set_socket k { socket with frames := socket.frames ++ [.event message] } with
      broadcasting := some ⟨message, sockets, broken⟩ } := by
  obtain ⟨hpos, hmsg, hnd, hall⟩ := hi.snapshot _ hb
  obtain ⟨hnotin, hnd'⟩ := List.nodup_cons.mp hnd
  obtain ⟨v, hv, he, hlt, hreg⟩ := hall k List.mem_cons_self
  rw [hs, Option.some.injEq] at hv
  subst hv
  have hst : socket.stage = .registered := by
    refine hreg.resolve_right fun hcl => ?_
    rw [hi.closed k socket hs hcl] at hok
    cases hok
  obtain ⟨hmem, hev⟩ := hi.complete k socket hs ⟨hst, hok⟩
  have hpend : h.pending k = true := Hub.pending_iff.mpr ⟨_, hb, List.mem_cons_self⟩
  -- with this message the socket is up to date
  have hnow : Socket.events { socket with frames := socket.frames ++ [.event message] }
      = feed (about socket.execution_id) channel socket.since h.taken := by
    have hone : feed (about socket.execution_id) channel socket.since (h.taken - 1 + 1)
        = feed (about socket.execution_id) channel socket.since (h.taken - 1) ++ [message] := by
      rw [feed_succ (by omega) hmsg, about, if_pos (decide_eq_true he.symm)]
    rw [Nat.sub_add_cancel hpos] at hone
    rw [Hub.served, if_pos hpend] at hev
    rw [hone, ← hev]
    simp [Socket.events, Frame.envelope?]
  have hself : (h.set_socket k
      { socket with frames := socket.frames ++ [.event message] }).sockets k
        = some { socket with frames := socket.frames ++ [.event message] } :=
    Function.update_self ..
  have hsame : ∀ j, j ≠ k → (h.set_socket k
      { socket with frames := socket.frames ++ [.event message] }).sockets j = h.sockets j :=
    fun j hj => Function.update_of_ne hj _ _
  have hforth : ∀ j v, h.sockets j = some v → ∃ u, (h.set_socket k
      { socket with frames := socket.frames ++ [.event message] }).sockets j = some u ∧
        u.execution_id = v.execution_id ∧ u.since = v.since ∧ u.stage = v.stage ∧
        u.broken = v.broken := by
    intro j v hv
    by_cases hjk : j = k
    · subst hjk
      rw [hs, Option.some.injEq] at hv
      subst hv
      exact ⟨_, hself, rfl, rfl, rfl, rfl⟩
    · exact ⟨v, by rw [hsame j hjk, hv], rfl, rfl, rfl, rfl⟩
  refine ⟨hi.taken_le, fun e ks hks => ?_, fun broadcast heq => ?_, fun broadcast heq j hj => ?_,
    fun j u hu => ?_, fun j u hu => ?_, fun j u hu => ?_, fun j u hu => ?_, fun j u hu hl => ?_⟩
  · obtain ⟨hne, hnd, hall'⟩ := hi.bucket e ks hks
    refine ⟨hne, hnd, fun j hj => ?_⟩
    obtain ⟨v, hv, hve, hvst⟩ := hall' j hj
    obtain ⟨u, hu, hue, -, hust, -⟩ := hforth j v hv
    exact ⟨u, hu, hue.trans hve, hust.trans hvst⟩
  · cases heq
    refine ⟨hpos, hmsg, hnd', fun j hj => ?_⟩
    obtain ⟨v, hv, hve, hvlt, hvst⟩ := hall j (List.mem_cons_of_mem _ hj)
    obtain ⟨u, hu, hue, hus, hust, -⟩ := hforth j v hv
    exact ⟨u, hu, hue.trans hve, hus ▸ hvlt, by rwa [hust]⟩
  · cases heq
    obtain ⟨v, hv, hbr⟩ := hi.dropped _ hb j hj
    obtain ⟨u, hu, -, -, -, hubr⟩ := hforth j v hv
    exact ⟨u, hu, hubr.trans hbr⟩
  · by_cases hjk : j = k
    · subst hjk
      rw [hself, Option.some.injEq] at hu
      rw [← hu]
      exact hi.since_le j socket hs
    · rw [hsame j hjk] at hu
      exact hi.since_le j u hu
  · by_cases hjk : j = k
    · subst hjk
      rw [hself, Option.some.injEq] at hu
      rw [← hu]
      exact hi.closed j socket hs
    · rw [hsame j hjk] at hu
      exact hi.closed j u hu
  · by_cases hjk : j = k
    · subst hjk
      rw [hself, Option.some.injEq] at hu
      rw [← hu]
      exact fun hne => absurd hst hne
    · rw [hsame j hjk] at hu
      exact hi.early j u hu
  · by_cases hjk : j = k
    · subst hjk
      rw [hself, Option.some.injEq] at hu
      rw [← hu]
      change Socket.events _ <+: feed (about socket.execution_id) channel socket.since h.taken
      rw [hnow]
    · rw [hsame j hjk] at hu
      exact hi.fed j u hu
  · by_cases hjk : j = k
    · subst hjk
      rw [hself, Option.some.injEq] at hu
      rw [← hu]
      refine ⟨hmem, ?_⟩
      have hup : Hub.served { h.set_socket j
          { socket with frames := socket.frames ++ [.event message] } with
            broadcasting := some ⟨message, sockets, broken⟩ } j = h.taken :=
        Hub.served_of_not_pending (by simpa [Hub.pending] using hnotin)
      rw [hnow, hup]
    · rw [hsame j hjk] at hu
      obtain ⟨hmem', hev'⟩ := hi.complete j u hu hl
      refine ⟨hmem', ?_⟩
      have hserved : Hub.served { h.set_socket k
          { socket with frames := socket.frames ++ [.event message] } with
            broadcasting := some ⟨message, sockets, broken⟩ } j = h.served j := by
        unfold Hub.served Hub.pending
        rw [hb]
        simp only [List.mem_cons, hjk, false_or]
        rfl
      rw [hserved]
      exact hev'

/-- A broadcast that has nothing left to send. -/
theorem HubInv.finish_broadcast (hi : HubInv channel h) {message : Envelope} {broken : List ℕ}
    (hb : h.broadcasting = some ⟨message, [], broken⟩) (rest : Option Broadcast)
    (hrest : ∀ broadcast, rest = some broadcast → broadcast.message = message ∧
      broadcast.sockets = [] ∧ ∀ k ∈ broadcast.broken, k ∈ broken) :
    HubInv channel { h with broadcasting := rest } := by
  refine ⟨hi.taken_le, hi.bucket, fun broadcast heq => ?_, fun broadcast heq j hj => ?_,
    hi.since_le, hi.closed, hi.early, hi.fed, fun j u hu hl => ?_⟩
  · obtain ⟨hmsg, hnil, -⟩ := hrest broadcast heq
    obtain ⟨hpos, hm, -⟩ := hi.snapshot _ hb
    refine ⟨hpos, by rw [hmsg]; exact hm, by rw [hnil]; exact List.nodup_nil, fun k hk => ?_⟩
    rw [hnil] at hk
    cases hk
  · exact hi.dropped _ hb j ((hrest broadcast heq).2.2 j hj)
  · obtain ⟨hmem, hev⟩ := hi.complete j u hu hl
    refine ⟨hmem, ?_⟩
    have hserved : Hub.served { h with broadcasting := rest } j = h.served j := by
      have hold : h.pending j = false := by simp [Hub.pending, hb]
      have hnew : Hub.pending { h with broadcasting := rest } j = false := by
        refine Bool.eq_false_iff.mpr fun hp => ?_
        obtain ⟨broadcast, heq, hj⟩ := Hub.pending_iff.mp hp
        rw [(hrest broadcast heq).2.1] at hj
        cases hj
      rw [Hub.served_of_not_pending hold, Hub.served_of_not_pending hnew]
    rw [hserved]
    exact hev

/-- A new handshake. The socket has been sent nothing and is registered nowhere, so the
invariant asks nothing of it yet. -/
theorem HubInv.opened (hi : HubInv channel h) (hnone : h.sockets k = none) (e : ℕ)
    (key : Option ℕ) :
    HubInv channel (h.set_socket k { execution_id := e, api_key_id := key }) := by
  have hself : (h.set_socket k { execution_id := e, api_key_id := key }).sockets k
      = some { execution_id := e, api_key_id := key } := Function.update_self ..
  have hstays : ∀ j u, h.sockets j = some u →
      (h.set_socket k { execution_id := e, api_key_id := key }).sockets j = some u := by
    intro j u hu
    have hjk : j ≠ k := by
      rintro rfl
      rw [hnone] at hu
      cases hu
    exact (Function.update_of_ne hjk _ _).trans hu
  have hcases : ∀ j u, (h.set_socket k { execution_id := e, api_key_id := key }).sockets j
      = some u → u = { execution_id := e, api_key_id := key } ∨ h.sockets j = some u := by
    intro j u hu
    by_cases hjk : j = k
    · subst hjk
      rw [hself, Option.some.injEq] at hu
      exact .inl hu.symm
    · exact .inr ((Function.update_of_ne hjk _ _).symm.trans hu)
  refine ⟨hi.taken_le, fun e' ks hks => ?_, fun broadcast hb => ?_, fun broadcast hb j hj => ?_,
    fun j u hu => ?_, fun j u hu => ?_, fun j u hu => ?_, fun j u hu => ?_, fun j u hu hl => ?_⟩
  · obtain ⟨hne, hnd, hall⟩ := hi.bucket e' ks hks
    refine ⟨hne, hnd, fun j hj => ?_⟩
    obtain ⟨v, hv, hrest⟩ := hall j hj
    exact ⟨v, hstays j v hv, hrest⟩
  · obtain ⟨hpos, hmsg, hnd, hall⟩ := hi.snapshot broadcast hb
    refine ⟨hpos, hmsg, hnd, fun j hj => ?_⟩
    obtain ⟨v, hv, hrest⟩ := hall j hj
    exact ⟨v, hstays j v hv, hrest⟩
  · obtain ⟨v, hv, hbr⟩ := hi.dropped broadcast hb j hj
    exact ⟨v, hstays j v hv, hbr⟩
  · rcases hcases j u hu with rfl | hu
    · exact Nat.zero_le _
    · exact hi.since_le j u hu
  · rcases hcases j u hu with rfl | hu
    · exact fun hcl => (by cases hcl)
    · exact hi.closed j u hu
  · rcases hcases j u hu with rfl | hu
    · exact fun _ _ => rfl
    · exact hi.early j u hu
  · rcases hcases j u hu with rfl | hu
    · exact List.nil_prefix
    · exact hi.fed j u hu
  · rcases hcases j u hu with rfl | hu
    · obtain ⟨hreg, -⟩ := hl
      cases hreg
    · exact hi.complete j u hu hl

/-- A restart closes every socket. -/
theorem HubInv.restart (hi : HubInv channel h) :
    HubInv channel { h with
      connections := fun _ => none
      sockets := fun k => (h.sockets k).map fun socket =>
        { socket with stage := .closed, broken := true }
      taken := channel.length
      broadcasting := none } := by
  have hback : ∀ j u, (h.sockets j).map (fun socket =>
      { socket with stage := Stage.closed, broken := true }) = some u →
      ∃ v, h.sockets j = some v ∧ u = { v with stage := .closed, broken := true } := by
    intro j u hu
    obtain ⟨v, hv, heq⟩ := Option.map_eq_some_iff.mp hu
    exact ⟨v, hv, heq.symm⟩
  refine ⟨le_rfl, by simp, by simp, by simp, fun j u hu => ?_, fun j u hu => ?_, fun j u hu => ?_,
    fun j u hu => ?_, fun j u hu hl => ?_⟩
  · obtain ⟨v, hv, rfl⟩ := hback j u hu
    exact (hi.since_le j v hv).trans hi.taken_le
  · obtain ⟨v, -, rfl⟩ := hback j u hu
    exact fun _ => rfl
  · obtain ⟨v, -, rfl⟩ := hback j u hu
    exact fun _ hne => absurd rfl hne
  · obtain ⟨v, hv, rfl⟩ := hback j u hu
    refine (hi.fed j v hv).trans ?_
    rw [feed_trans (hi.since_le j v hv) hi.taken_le le_rfl]
    exact List.prefix_append _ _
  · obtain ⟨v, -, rfl⟩ := hback j u hu
    cases hl.2

/-- **Every piece keeps the invariant.** Each case is one of the lemmas above; what is
left is to see in the guard of the action that its hypotheses hold. -/
theorem HubInv.act {b : HubAction} (hi : HubInv s.channel h) (hact : h.act env s b = some h') :
    HubInv s.channel h' := by
  cases b with
  | opened k e key =>
      simp only [Hub.act] at hact
      split at hact
      · rename_i hnone
        cases hact
        exact hi.opened hnone e key
      · cases hact
  | authorize k =>
      simp only [Hub.act] at hact
      split at hact
      · rename_i socket hs
        split at hact
        · rename_i hst
          cases hact
          -- nothing has been sent to it yet, and it is in no bucket
          have hevents := hi.early k socket hs (by simp [hst]) (by simp [hst])
          refine hi.set_socket hs ⟨rfl, rfl, rfl, ?_, id, by simp [hst], by simp [hst], ?_,
            fun _ _ => hevents⟩ fun e hk => ?_
          · rintro ⟨hreg, -⟩
            dsimp only at hreg
            split at hreg <;> cases hreg
          · intro hcl
            dsimp only at hcl
            split at hcl <;> cases hcl
          · exact absurd hk (hi.not_mem_bucket hs (by simp [hst]) e)
        · cases hact
      · cases hact
  | connect k =>
      simp only [Hub.act] at hact
      split at hact
      · rename_i socket hs
        split at hact
        · rename_i hst
          cases hact
          exact hi.connect hs hst
        · cases hact
      · cases hact
  | abort k =>
      simp only [Hub.act] at hact
      split at hact
      · rename_i socket hs
        split at hact
        · rename_i hst
          cases hact
          have hevents := hi.early k socket hs (by simp [hst]) (by simp [hst])
          refine hi.set_socket hs ⟨rfl, rfl, rfl, ?_, fun _ => rfl, by simp [hst], by simp [hst],
            fun _ => rfl, fun _ _ => hevents⟩ fun e hk => ?_
          · rintro ⟨hreg, -⟩
            cases hreg
          · exact absurd hk (hi.not_mem_bucket hs (by simp [hst]) e)
        · cases hact
      · cases hact
  | disconnect k =>
      simp only [Hub.act] at hact
      split at hact
      · rename_i socket hs
        split at hact
        · rename_i hst
          cases hact
          exact hi.close hs hst
        · cases hact
      · cases hact
  | broke k =>
      simp only [Hub.act] at hact
      split at hact
      · rename_i socket hs
        cases hact
        -- a registered socket may break while it is in a bucket
        refine hi.set_socket hs ⟨rfl, rfl, rfl, ?_, fun _ => rfl, .inl, id, fun _ => rfl,
          hi.early k socket hs⟩ fun e hk => ?_
        · rintro ⟨-, hok⟩
          cases hok
        · by_contra hne
          exact hi.not_mem_bucket hs hne e hk
      · cases hact
  | ping k =>
      simp only [Hub.act] at hact
      split at hact
      · rename_i socket hs
        split at hact
        · rename_i hst
          cases hact
          refine hi.set_socket hs ⟨rfl, ?_, rfl, id, id, .inl, id, hi.closed k socket hs,
            hi.early k socket hs⟩ fun _ _ => hst.1
          simp [Socket.events, Frame.envelope?]
        · cases hact
      · cases hact
  | take order =>
      simp only [Hub.act] at hact
      split at hact
      · rename_i message hb hm
        split at hact
        · rename_i horder
          cases hact
          exact hi.take hb hm horder
        · cases hact
      · cases hact
  | send =>
      simp only [Hub.act] at hact
      split at hact
      · rename_i message k sockets broken hb
        split at hact
        · rename_i socket hs
          split at hact
          · rename_i hbr
            cases hact
            exact hi.send_broken hb hs hbr
          · rename_i hbr
            cases hact
            exact hi.send hb hs (by simpa using hbr)
        · cases hact
      · cases hact
  | drop =>
      simp only [Hub.act] at hact
      split at hact
      · rename_i message k broken hb
        cases hact
        -- a socket that is dropped has raised before
        obtain ⟨socket, hs, hbr⟩ := hi.dropped _ hb k List.mem_cons_self
        refine (hi.disconnect hs hbr message.execution_id).finish_broadcast
          (by rw [Hub.disconnect_broadcasting, hb]) _ ?_
        rintro broadcast heq
        cases heq
        exact ⟨rfl, rfl, fun j hj => List.mem_cons_of_mem _ hj⟩
      · cases hact
  | done =>
      simp only [Hub.act] at hact
      split at hact
      · rename_i message hb
        cases hact
        exact hi.finish_broadcast hb none fun _ heq => by cases heq
      · cases hact
  | restart =>
      simp only [Hub.act] at hact
      cases hact
      exact hi.restart

end HubInv

end EventFlow
