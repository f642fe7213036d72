/-
The engine and the API process side by side.

[`Monitor`] puts the system of `System.lean` and the sockets of `WebSockets.lean`
next to each other: the engine appends to the channel, the listener takes from
it, and their steps interleave freely. [`feed_exact`] is what a socket has been
sent at any moment of any run, and [`only_to_owner`] that it is nobody else's.
-/
import EventFlow.Journal
import EventFlow.WebSockets

set_option autoImplicit false

namespace EventFlow

open Transition Feed

/-! ## The engine and the API process side by side -/

/-- The whole back end, as far as a client can see it. -/
structure Monitor where
  sys : Sys
  hub : Hub

inductive MonitorAction where
  | engine (a : Action)
  | hub (b : HubAction)

def Monitor.init : Monitor := ⟨Sys.init, Hub.init⟩

def Monitor.step (env : Env) (m : Monitor) : MonitorAction → Option Monitor
  | .engine a => (m.sys.step env a).map fun s => { m with sys := s }
  | .hub b => (m.hub.act env m.sys b).map fun h => { m with hub := h }

/-! ## Every run of the back end -/

section Monitor

variable {env : Env} {s s' : Sys} {a : Action} {m m' : Monitor}

/-- The engine only appends to the channel. -/
theorem Effect.channel_grows (h : Effect env s a s') : ∃ more, s'.channel = s.channel ++ more := by
  cases h.moves with
  | nothing htasks hcommitted hchannel => exact ⟨[], by rw [hchannel, List.append_nil]⟩
  | moved t sent new ht htasks hcommitted hchannel hle => exact ⟨sent, hchannel⟩

/-- **The invariant rule of the back end.** The clock of the engine aside, what effects
and pieces keep holds along every run. The engine moves by effects and the API process by
pieces of its coroutines, so an invariant of both has one obligation for each; neither can
see the other's step but through the channel. -/
theorem Monitor.invariant (P : Monitor → Prop)
    (hrun : Reaches (Monitor.step env) (fun _ _ => True) m m') (ht : m.sys.Typed env) (h₀ : P m)
    (hclock : ∀ s h clock, P ⟨s, h⟩ → P ⟨{ s with clock := clock }, h⟩)
    (hengine : ∀ s h a s', s.Typed env → P ⟨s, h⟩ → Effect env s a s' → P ⟨s', h⟩)
    (hhub : ∀ s h b h', P ⟨s, h⟩ → h.act env s b = some h' → P ⟨s, h'⟩) :
    m'.sys.Typed env ∧ P m' := by
  refine hrun.invariant (fun u => u.sys.Typed env ∧ P u) ⟨ht, h₀⟩ ?_
  rintro u b v ⟨htu, hu⟩ - hstep
  cases b with
  | engine a =>
      obtain ⟨s', hs', rfl⟩ := Option.map_eq_some_iff.mp hstep
      refine ⟨typed_of_step htu hs', ?_⟩
      obtain ⟨w, hw, rfl⟩ := Option.map_eq_some_iff.mp hs'
      exact hclock w u.hub _ (hengine u.sys u.hub a w htu hu (effect_of_act htu hw))
  | hub b =>
      obtain ⟨h', hh', rfl⟩ := Option.map_eq_some_iff.mp hstep
      exact ⟨htu, hhub u.sys u.hub b h' hu hh'⟩

theorem hubInv_of_reaches (hrun : Reaches (Monitor.step env) (fun _ _ => True) Monitor.init m) :
    HubInv m.sys.channel m.hub := by
  refine (Monitor.invariant (fun u => HubInv u.sys.channel u.hub) hrun typed_init hubInv_init
    (fun _ _ _ hu => hu) (fun s h a s' _ hu heff => ?_) fun s h b h' hu hact => hu.act hact).2
  obtain ⟨more, hmore⟩ := heff.channel_grows
  change HubInv s'.channel h
  rw [hmore]
  exact hu.append more

end Monitor

/-- A client that joins while the first event of `solo` is out, and one that has
the wrong key. -/
def solo_watched : List MonitorAction :=
  [.engine (.start 0 0 none 0), .hub (.opened 5 0 (some 0)), .hub (.opened 6 0 (some 1)),
    .hub (.authorize 5), .hub (.authorize 6), .engine (.publish 0), .engine (.finish 0),
    .engine (.flush 0), .hub (.take []), .hub (.connect 5), .engine (.flush 0),
    .hub (.take [5]), .hub .send, .hub .done, .hub (.ping 5)]

/-- What the first client has got by then. -/
theorem solo_watched_reaches : ∃ m socket,
    Reaches (Monitor.step (env_of solo)) (fun _ _ => True) Monitor.init m ∧
      m.hub.sockets 5 = some socket ∧ socket.execution_id = 0 ∧ socket.api_key_id = some 0 ∧
      socket.since = 1 ∧ socket.live ∧ socket.frames.length = 2 ∧
      m.hub.broadcasting = none ∧ m.hub.taken = m.sys.channel.length ∧
      (m.sys.executions 0).isSome = true := by
  have hrun : (run (restrict (Monitor.step (env_of solo)) fun _ _ => true) Monitor.init
      solo_watched).any (fun m => (m.hub.sockets 5).any (fun socket =>
        decide (socket.execution_id = 0 ∧ socket.api_key_id = some 0 ∧ socket.since = 1 ∧
          (socket.stage = .registered ∧ socket.broken = false) ∧ socket.frames.length = 2)) &&
      (m.hub.broadcasting.isNone && (decide (m.hub.taken = m.sys.channel.length) &&
        (m.sys.executions 0).isSome))) = true := by decide +kernel
  obtain ⟨m, hm, hcheck⟩ := (Option.any_eq_true _ _).mp hrun
  rw [Bool.and_eq_true, Bool.and_eq_true, Bool.and_eq_true] at hcheck
  obtain ⟨hsocket, hnone, htaken, hrows⟩ := hcheck
  obtain ⟨socket, hs, hsocket⟩ := (Option.any_eq_true _ _).mp hsocket
  obtain ⟨he, hkey, hsince, hlive, hlen⟩ := of_decide_eq_true hsocket
  exact ⟨m, socket, (reaches_of_run hm).mono fun _ _ _ => trivial, hs, he, hkey, hsince, hlive,
    hlen, Option.isNone_iff_eq_none.mp hnone, of_decide_eq_true htaken, hrows⟩

/-- **What a socket is sent.** In every run of the engine and the API process, a socket
has been sent, in order and without repetition, a beginning of the messages about its
execution that the listener has taken since the socket was registered. A live socket has
been sent all of them, but for the one whose broadcast has not come to it. The first two
parts are fields of [`HubInv`], which counts for each socket how far the listener has come
with it. The third is the second at a moment at which there is nothing left to send. -/
theorem feed_exact (env : Env) (m : Monitor)
    (hrun : Reaches (Monitor.step env) (fun _ _ => True) Monitor.init m) (k : ℕ)
    (socket : Socket) (hs : m.hub.sockets k = some socket) :
    socket.events <+: feed (about socket.execution_id) m.sys.channel socket.since m.hub.taken ∧
    (socket.live → k ∈ m.hub.bucket socket.execution_id ∧
      socket.events
        = feed (about socket.execution_id) m.sys.channel socket.since (m.hub.served k)) ∧
    (socket.live → m.hub.broadcasting = none → m.hub.taken = m.sys.channel.length →
      socket.events
        = (m.sys.channel.drop socket.since).filter (about socket.execution_id)) := by
  have hinv := hubInv_of_reaches hrun
  refine ⟨hinv.fed k socket hs, hinv.complete k socket hs, fun hlive hnone hall => ?_⟩
  obtain ⟨-, hev⟩ := hinv.complete k socket hs hlive
  rw [hev, Hub.served_of_not_pending (Hub.pending_of_none hnone), hall, feed, List.take_length]

/-- The client of `solo` has missed the first event and got the second. -/
theorem feed_exact_solo : ∃ (m : Monitor) (socket : Socket), m.hub.sockets 5 = some socket ∧
    socket.live ∧ socket.events = (m.sys.channel.drop 1).filter (about 0) := by
  obtain ⟨m, socket, hrun, hs, he, -, hsince, hlive, -, hnone, htaken, -⟩ := solo_watched_reaches
  refine ⟨m, socket, hs, hlive, ?_⟩
  rw [← hsince, ← he]
  exact (feed_exact (env_of solo) m hrun 5 socket hs).2.2 hlive hnone htaken

/-! ## Who is sent anything at all -/

/-- The socket has been let in. -/
def Socket.Admitted (socket : Socket) : Prop :=
  socket.stage = .authorized ∨ socket.stage = .registered ∨ socket.frames ≠ []

section Admitted

variable {env : Env} {s s' s₀ : Sys} {a : Action} {h h' : Hub} {b : HubAction} {k : ℕ}
  {socket u v : Socket}

/-- What a piece can do to one socket. -/
inductive Socket.Passes (env : Env) (s : Sys) : Option Socket → Option Socket → Prop
  | same {old : Option Socket} : Passes env s old old
  | opened (e : ℕ) (key : Option ℕ) :
      Passes env s none (some { execution_id := e, api_key_id := key })
  /-- Frames are only added, and `authorize` alone lets a socket in. -/
  | moved {v u : Socket} (hid : u.execution_id = v.execution_id)
      (hkey : u.api_key_id = v.api_key_id) (hframes : v.frames <+: u.frames)
      (hadm : u.Admitted → v.Admitted ∨ authorize env s v = true) :
      Passes env s (some v) (some u)

/-- An assignment to one socket. -/
theorem Socket.Passes.set_socket (hv : h.sockets k = some v) (u : Socket)
    (hid : u.execution_id = v.execution_id) (hkey : u.api_key_id = v.api_key_id)
    (hframes : v.frames <+: u.frames) (hadm : u.Admitted → v.Admitted ∨ authorize env s v = true)
    (j : ℕ) : Passes env s (h.sockets j) ((h.set_socket k u).sockets j) := by
  by_cases hj : j = k
  · subst hj
    have hu : (h.set_socket j u).sockets j = some u := Function.update_self ..
    rw [hv, hu]
    exact .moved hid hkey hframes hadm
  · have hu : (h.set_socket k u).sockets j = h.sockets j := Function.update_of_ne hj _ _
    rw [hu]
    exact .same

/-- **What a piece does to each socket.** Case by case over the pieces. The one that lets
a socket in is the reply of `_authorize`, which has looked at the rows of that moment;
after it a socket only gets frames of messages that the listener takes. -/
theorem HubInv.passes (hi : HubInv s.channel h) (hact : h.act env s b = some h') (j : ℕ) :
    Socket.Passes env s (h.sockets j) (h'.sockets j) := by
  cases b with
  | opened k e key =>
      simp only [Hub.act] at hact
      split at hact
      · rename_i hnone
        cases hact
        by_cases hj : j = k
        · subst hj
          have hu : (h.set_socket j { execution_id := e, api_key_id := key }).sockets j
              = some { execution_id := e, api_key_id := key } := Function.update_self ..
          rw [hnone, hu]
          exact .opened e key
        · have hu : (h.set_socket k { execution_id := e, api_key_id := key }).sockets j
              = h.sockets j := Function.update_of_ne hj _ _
          rw [hu]
          exact .same
      · cases hact
  | authorize k =>
      simp only [Hub.act] at hact
      split at hact
      · rename_i v hv
        split at hact
        · cases hact
          refine .set_socket hv
            { v with stage := if authorize env s v then .authorized else .rejected } rfl rfl
            List.prefix_rfl (fun hnew => ?_) j
          by_cases hauth : authorize env s v = true
          · exact .inr hauth
          · simp only [hauth, Socket.Admitted, Bool.false_eq_true, if_false, reduceCtorEq,
              false_or] at hnew
            exact .inl (.inr (.inr hnew))
        · cases hact
      · cases hact
  | connect k =>
      simp only [Hub.act] at hact
      split at hact
      · rename_i v hv
        split at hact
        · rename_i hst
          cases hact
          exact .set_socket (h := h) hv { v with stage := .registered, since := h.taken } rfl rfl
            List.prefix_rfl (fun _ => .inl (.inl hst)) j
        · cases hact
      · cases hact
  | abort k =>
      simp only [Hub.act] at hact
      split at hact
      · rename_i v hv
        split at hact
        · rename_i hst
          cases hact
          exact .set_socket hv { v with stage := .closed, broken := true } rfl rfl
            List.prefix_rfl (fun _ => .inl (.inl hst)) j
        · cases hact
      · cases hact
  | disconnect k =>
      simp only [Hub.act] at hact
      split at hact
      · rename_i v hv
        split at hact
        · rename_i hst
          cases hact
          have hset := @Socket.Passes.set_socket env s _ k v hv
            { v with stage := .closed, broken := true } rfl rfl List.prefix_rfl
            (fun _ => .inl (.inr (.inl hst))) j
          simpa [Hub.set_socket] using hset
        · cases hact
      · cases hact
  | broke k =>
      simp only [Hub.act] at hact
      split at hact
      · rename_i v hv
        cases hact
        exact .set_socket hv { v with broken := true } rfl rfl List.prefix_rfl .inl j
      · cases hact
  | ping k =>
      simp only [Hub.act] at hact
      split at hact
      · rename_i v hv
        split at hact
        · rename_i hst
          cases hact
          exact .set_socket hv { v with frames := v.frames ++ [.ping] } rfl rfl
            (List.prefix_append _ _) (fun _ => .inl (.inr (.inl hst.1))) j
        · cases hact
      · cases hact
  | take order =>
      simp only [Hub.act] at hact
      split at hact
      · split at hact
        · cases hact
          exact .same
        · cases hact
      · cases hact
  | send =>
      simp only [Hub.act] at hact
      split at hact
      · rename_i message k sockets broken hb
        split at hact
        · rename_i v hv
          split at hact
          · cases hact
            exact .same
          · rename_i hbr
            cases hact
            -- a socket of a snapshot that has not broken is in its receive loop
            refine .set_socket (h := h) hv { v with frames := v.frames ++ [.event message] } rfl
              rfl (List.prefix_append _ _) (fun _ => ?_) j
            obtain ⟨w, hw, -, -, hst⟩ := (hi.snapshot _ hb).2.2.2 k List.mem_cons_self
            rw [hv, Option.some.injEq] at hw
            subst hw
            exact .inl (.inr (.inl (hst.resolve_right fun hcl => hbr (hi.closed k v hv hcl))))
        · cases hact
      · cases hact
  | drop =>
      simp only [Hub.act] at hact
      split at hact
      · cases hact
        rw [Hub.disconnect_sockets]
        exact .same
      · cases hact
  | done =>
      simp only [Hub.act] at hact
      split at hact
      · cases hact
        exact .same
      · cases hact
  | restart =>
      simp only [Hub.act] at hact
      cases hact
      dsimp only
      cases hv : h.sockets j with
      | none => exact .same
      | some v =>
          refine .moved rfl rfl List.prefix_rfl fun hadm => .inl ?_
          rcases hadm with hst | hst | hne
          · cases hst
          · cases hst
          · exact .inr (.inr hne)

/-- An admitted socket was admitted before the piece, or `authorize` has just said
so. -/
theorem HubInv.from (hi : HubInv s.channel h) (hact : h.act env s b = some h')
    (hu : h'.sockets k = some u) (hadm : u.Admitted) :
    ∃ v, h.sockets k = some v ∧ v.execution_id = u.execution_id ∧ v.api_key_id = u.api_key_id ∧
      (v.Admitted ∨ authorize env s v = true) := by
  have hpass := hi.passes hact k
  rw [hu] at hpass
  generalize hv : h.sockets k = old at hpass
  cases hpass with
  | same => exact ⟨u, rfl, rfl, rfl, .inl hadm⟩
  | opened e key =>
      rcases hadm with hst | hst | hne
      · cases hst
      · cases hst
      · exact absurd rfl hne
  | moved hid hkey hframes hlet => exact ⟨_, rfl, hid.symm, hkey.symm, hlet hadm⟩

/-- The frames that have been sent to socket `k`. -/
def Hub.frames (h : Hub) (k : ℕ) : List Frame := (h.sockets k).elim [] Socket.frames

/-- The frames of a socket only grow. -/
theorem HubInv.frames_grow (hi : HubInv s.channel h) (hact : h.act env s b = some h') (k : ℕ) :
    h.frames k <+: h'.frames k := by
  have hpass := hi.passes hact k
  unfold Hub.frames
  generalize h.sockets k = old at hpass
  generalize h'.sockets k = new at hpass
  cases hpass with
  | same => exact List.prefix_rfl
  | opened e key => exact List.nil_prefix
  | moved hid hkey hframes hlet => exact hframes

/-! ### The owner of an execution -/

/-- The version of stored rows does not change. -/
theorem Effect.version_id {e : ℕ} {rows' : ExecutionRows} (heff : Effect env s a s')
    (hrows' : s'.executions e = some rows') :
    (∃ rows, s.executions e = some rows ∧
      rows'.execution.workflow_version_id = rows.execution.workflow_version_id) ∨
    e = s.next_execution_id := by
  cases heff.wrote hrows' with
  | same hrows => exact .inl ⟨_, hrows, rfl⟩
  | inserted ha he hok htask => exact .inr he
  | retried ha hrows => exact .inl ⟨_, hrows, rfl⟩
  | logged hrows => exact .inl ⟨_, hrows, rfl⟩
  | claimed ha hentry he hrows hkey => exact .inl ⟨_, hrows, rfl⟩
  | reverted ha hentry he hrows => exact .inl ⟨_, hrows, rfl⟩
  | reclaimed ha hphase he hrows hst => exact .inl ⟨_, hrows, rfl⟩
  | completed ha hphase he hrows => exact .inl ⟨_, hrows, rfl⟩
  | ids sent hrows => exact .inl ⟨_, hrows, rfl⟩

/-- The rows of execution `e`, if there are any, belong to `owner`. -/
def Sys.OwnedBy (env : Env) (s : Sys) (e owner : ℕ) : Prop :=
  ∀ rows, s.executions e = some rows → env.owner rows.execution = some owner

/-- Ownership does not change, and identifiers are not used again. -/
theorem Effect.ownedBy {e owner : ℕ} (heff : Effect env s a s') (hlt : e < s.next_execution_id)
    (h : s.OwnedBy env e owner) : s'.OwnedBy env e owner := by
  intro rows' hrows'
  rcases heff.version_id hrows' with ⟨rows, hrows, heq⟩ | he
  · rw [← h rows hrows, Env.owner, Env.owner, heq]
  · exact absurd he hlt.ne

/-- What `authorize` has checked. -/
theorem of_authorize (h : authorize env s socket = true) :
    ∃ owner rows, socket.api_key_id = some owner ∧
      s.executions socket.execution_id = some rows ∧ env.owner rows.execution = some owner := by
  unfold authorize at h
  split at h
  · rename_i owner rows hkey hrows
    exact ⟨owner, rows, hkey, hrows, of_decide_eq_true h⟩
  · cases h

/-- The execution of every admitted socket is its key's, both now and in the
earlier state `s₀`. -/
structure OwnerInv (env : Env) (s₀ : Sys) (m : Monitor) : Prop where
  hub : HubInv m.sys.channel m.hub
  next_le : s₀.next_execution_id ≤ m.sys.next_execution_id
  version : ∀ e rows₀ rows, s₀.executions e = some rows₀ → m.sys.executions e = some rows →
    rows.execution.workflow_version_id = rows₀.execution.workflow_version_id
  owner : ∀ k socket, m.hub.sockets k = some socket → socket.Admitted →
    ∃ owner, socket.api_key_id = some owner ∧ socket.execution_id < m.sys.next_execution_id ∧
      m.sys.OwnedBy env socket.execution_id owner ∧ s₀.OwnedBy env socket.execution_id owner

theorem OwnerInv.effect (hi : OwnerInv env s₀ ⟨s, h⟩) (ht₀ : s₀.Typed env)
    (heff : Effect env s a s') : OwnerInv env s₀ ⟨s', h⟩ := by
  obtain ⟨more, hmore⟩ := heff.channel_grows
  refine ⟨?_, hi.next_le.trans heff.next_le, fun e rows₀ rows hrows₀ hrows => ?_,
    fun k socket hs hadm => ?_⟩
  · change HubInv s'.channel h
    rw [hmore]
    exact hi.hub.append more
  · rcases heff.version_id hrows with ⟨old, hold, heq⟩ | rfl
    · exact heq.trans (hi.version e rows₀ old hrows₀ hold)
    · exact absurd ((ht₀.lt hrows₀).trans_le hi.next_le) (lt_irrefl _)
  · obtain ⟨owner, hkey, hlt, hnow, hthen⟩ := hi.owner k socket hs hadm
    exact ⟨owner, hkey, hlt.trans_le heff.next_le, heff.ownedBy hlt hnow, hthen⟩

theorem OwnerInv.act (hi : OwnerInv env s₀ ⟨s, h⟩) (ht : s.Typed env)
    (hact : h.act env s b = some h') : OwnerInv env s₀ ⟨s, h'⟩ := by
  refine ⟨hi.hub.act hact, hi.next_le, hi.version, fun k u hu hadm => ?_⟩
  obtain ⟨v, hv, hid, hkey, hfrom⟩ := hi.hub.from hact hu hadm
  rw [← hid, ← hkey]
  rcases hfrom with hadm | hauth
  · exact hi.owner k v hv hadm
  · obtain ⟨owner, rows, hkey', hrows, howner⟩ := of_authorize hauth
    refine ⟨owner, hkey', ht.lt hrows, fun rows' hrows' => ?_, fun rows₀ hrows₀ => ?_⟩
    · rw [hrows, Option.some.injEq] at hrows'
      rw [← hrows', howner]
    · rw [← howner, Env.owner, Env.owner, hi.version _ rows₀ rows hrows₀ hrows]

/-- The invariant holds relative to every state the run has come through. -/
theorem ownerInv_of_reaches {m m' : Monitor}
    (hrun : Reaches (Monitor.step env) (fun _ _ => True) Monitor.init m)
    (hrun' : Reaches (Monitor.step env) (fun _ _ => True) m m') : OwnerInv env m.sys m' := by
  have hkeep : ∀ {n : Monitor} {s₀ : Sys} {n' : Monitor}, s₀.Typed env → n.sys.Typed env →
      OwnerInv env s₀ n → Reaches (Monitor.step env) (fun _ _ => True) n n' →
      n'.sys.Typed env ∧ OwnerInv env s₀ n' := by
    intro n s₀ n' ht₀ ht hn hr
    refine hr.invariant (fun u => u.sys.Typed env ∧ OwnerInv env s₀ u) ⟨ht, hn⟩ ?_
    rintro u c v ⟨htu, hu⟩ - hstep
    cases c with
    | engine c =>
        obtain ⟨s', hs', rfl⟩ := Option.map_eq_some_iff.mp hstep
        refine ⟨typed_of_step htu hs', ?_⟩
        obtain ⟨w, hw, rfl⟩ := Option.map_eq_some_iff.mp hs'
        have := hu.effect ht₀ (effect_of_act htu hw)
        exact ⟨this.hub, this.next_le, this.version, this.owner⟩
    | hub c =>
        obtain ⟨h', hh', rfl⟩ := Option.map_eq_some_iff.mp hstep
        exact ⟨htu, hu.act htu hh'⟩
  -- first relative to the initial state, then to `m`
  have hinit : OwnerInv env Sys.init Monitor.init :=
    ⟨hubInv_init, le_rfl, by simp [Monitor.init, Sys.init], by simp [Monitor.init, Hub.init]⟩
  obtain ⟨ht, hm⟩ := hkeep typed_init typed_init hinit hrun
  refine (hkeep ht ht ⟨hm.hub, le_rfl, fun e rows₀ rows hrows₀ hrows => ?_,
    fun k socket hs hadm => ?_⟩ hrun').2
  · rw [hrows₀, Option.some.injEq] at hrows
    rw [hrows]
  · obtain ⟨owner, hkey, hlt, hnow, -⟩ := hm.owner k socket hs hadm
    exact ⟨owner, hkey, hlt, hnow, hnow⟩

end Admitted

/-- **Only the owner is let in.** A socket that has been sent anything, or is in its
receive loop, was opened with a key that owns the execution in this and in every earlier
state of the run, and it has been sent events of that execution only. The owner is fixed
when `_authorize` has answered, before anything is sent. That it is the owner at any other
time is because the workflow of an execution, and with it the owner, is never rewritten;
and what a socket is sent is a feed of its own execution ([`HubInv`]). -/
theorem only_to_owner (env : Env) (m m' : Monitor)
    (hrun : Reaches (Monitor.step env) (fun _ _ => True) Monitor.init m)
    (hrun' : Reaches (Monitor.step env) (fun _ _ => True) m m') (k : ℕ) (socket : Socket)
    (hs : m'.hub.sockets k = some socket)
    (hsent : socket.stage = .registered ∨ socket.frames ≠ []) :
    ∃ owner, socket.api_key_id = some owner ∧
      (∀ event ∈ socket.events, event.execution_id = socket.execution_id) ∧
      ∀ rows, m.sys.executions socket.execution_id = some rows →
        env.owner rows.execution = some owner := by
  have hinv := ownerInv_of_reaches hrun hrun'
  obtain ⟨owner, hkey, -, -, hthen⟩ := hinv.owner k socket hs (.inr hsent)
  refine ⟨owner, hkey, fun event hevent => ?_, hthen⟩
  have habout : about socket.execution_id event = true :=
    mem_feed ((hinv.hub.fed k socket hs).subset hevent)
  exact of_decide_eq_true habout

theorem only_to_owner_solo : ∃ (m : Monitor) (socket : Socket) (rows : ExecutionRows),
    socket.frames.length = 2 ∧ socket.api_key_id = some 0 ∧ m.sys.executions 0 = some rows ∧
      (env_of solo).owner rows.execution = some 0 := by
  obtain ⟨m, socket, hrun, hs, he, hkey, -, hlive, hlen, -, -, hrows⟩ := solo_watched_reaches
  obtain ⟨rows, hrows⟩ := Option.isSome_iff_exists.mp hrows
  obtain ⟨owner, hkey', -, howner⟩ :=
    only_to_owner (env_of solo) m m hrun .refl 5 socket hs (.inl hlive.1)
  rw [he] at howner
  rw [hkey, Option.some.injEq] at hkey'
  exact ⟨m, socket, rows, hlen, hkey, hrows, hkey' ▸ howner rows hrows⟩

end EventFlow
