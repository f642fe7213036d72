/-
The page of an execution: `useExecutionWebSocket` (`lib/websocket.ts`) and the two
queries of `executions/[id]/page.tsx`.

The page holds a copy of the execution in a query cache. The copy comes from
`GET /executions/{id}`, and every frame of the socket rewrites it in place. The
request and the socket know nothing of each other: a response overwrites what
frames have done to the copy in the meantime, and a frame that comes before the
first response is dropped. [`Viewer`] puts the page next to the engine and the
API process, and lets the three interleave.

[`page_shows_row`] says when the copy is right once everything is at rest. The
copy of a node is the last write to it ([`NodeView.after_shows`]); the attempts of
its events never decrease ([`AttemptsAnnounced`]), so that the `||` of the page, which
takes attempt 0 for a missing one, does no harm.
-/
import EventFlow.EventAttempts
import EventFlow.LiveUpdates

set_option autoImplicit false

namespace EventFlow

open Transition Feed

/-! ## The cache -/

/-- A node of `ExecutionResponse`, as far as frames rewrite it. -/
structure NodeView where
  node_id : String
  status : NodeExecutionStatus
  attempt : ℕ
deriving DecidableEq, Repr

/-- `ExecutionResponse`, as far as frames rewrite it. -/
structure ExecutionView where
  status : ExecutionStatus
  node_executions : List NodeView

/-- `ExecutionLogResponse`. -/
structure LogView where
  level : LogLevel
  message : String
  metadata : Option JsonObject

/-- The entries of the query client that belong to one execution. -/
structure Cache where
  execution : Option ExecutionView := none
  logs : Option (List LogView) := none

def ExecutionLog.view (log : ExecutionLog) : LogView where
  level := log.level
  message := log.message
  metadata := log.metadata

/-- The rewrite of one node; `attempt || node.attempt` keeps the old attempt when
the new one is 0. -/
def NodeView.on_update (n : String) (status : NodeExecutionStatus) (attempt : ℕ)
    (node : NodeView) : NodeView :=
  if node.node_id = n then
    { node with status, attempt := if attempt = 0 then node.attempt else attempt }
  else node

/-- What a frame does to one node. -/
def NodeView.on_frame (node : NodeView) : Frame → NodeView
  | .event ⟨_, _, .node_updated n status attempt⟩ => node.on_update n status attempt
  | _ => node

/-- What a frame does to the execution. -/
def ExecutionView.on_frame (old : ExecutionView) (frame : Frame) : ExecutionView where
  status :=
    match frame with
    | .event ⟨_, _, .execution_updated status⟩ => status
    | _ => old.status
  node_executions := old.node_executions.map fun node => node.on_frame frame

/-- `ws.onmessage`. There is nothing to rewrite before the first response, and
logs are collected even then. -/
def Cache.on_message (cache : Cache) (frame : Frame) : Cache where
  execution := cache.execution.map fun old => old.on_frame frame
  logs :=
    match frame with
    | .event ⟨_, _, .execution_log log⟩ => some (cache.logs.getD [] ++ [log.view])
    | _ => cache.logs

/-! ## The page -/

/-- Whose page it is, and which socket it has opened. -/
structure Tab where
  execution_id : ℕ
  owner_api_key_id : ℕ
  socket : ℕ

/-- `GET /executions/{id}` under way. It is answered in two statements: one reads
the execution and one its nodes. `read_at` is a history variable: how many events
had been committed when the nodes were read. -/
inductive Request where
  | none
  | execution (status : ExecutionStatus)
  | answered (view : ExecutionView) (read_at : ℕ)

/-- The page. `processed` is how many frames the handler has seen. `read_at` and
`arrived` are history variables: when the nodes of the copy were read, and how
many frames had been seen when they arrived. -/
structure Page where
  cache : Cache := {}
  request : Request := .none
  logs_request : Option (List LogView) := none
  processed : ℕ := 0
  read_at : ℕ := 0
  arrived : ℕ := 0

inductive PageAction where
  /-- The query is sent and the execution is read; an older one is dropped. -/
  | fetch
  | fetch_nodes
  | arrive
  | fetch_logs
  | arrive_logs
  /-- The handler sees the next frame. -/
  | message

/-- The rows that the owner's requests can read. -/
def Sys.readable (env : Env) (s : Sys) (tab : Tab) : Option ExecutionRows :=
  (s.executions tab.execution_id).filter fun rows =>
    decide (env.owner rows.execution = some tab.owner_api_key_id)

/-- `get_node_executions`. -/
def ExecutionRows.node_views (rows : ExecutionRows) : List NodeView :=
  rows.nodes.keys.map fun n => ⟨n, (rows.nodes.row n).status, (rows.nodes.row n).attempt⟩

def Page.act (env : Env) (tab : Tab) (m : Monitor) (p : Page) : PageAction → Option Page
  | .fetch =>
    match m.sys.readable env tab with
    | some rows => some { p with request := .execution rows.execution.status }
    | none => none
  | .fetch_nodes =>
    match p.request with
    | .execution status =>
      -- without rows the list is empty: the execution has been deleted in between
      let nodes := (m.sys.readable env tab).elim [] ExecutionRows.node_views
      some { p with request := .answered ⟨status, nodes⟩ m.sys.committed.length }
    | _ => none
  | .arrive =>
    match p.request with
    | .answered view read_at =>
      some { p with
        cache := { p.cache with execution := some view }
        request := .none
        read_at
        arrived := p.processed }
    | _ => none
  | .fetch_logs =>
    match m.sys.readable env tab with
    | some rows =>
      -- `enabled: !!execution`, and the first 50 rows
      if p.cache.execution.isSome then
        some { p with logs_request := some ((rows.logs.take 50).map ExecutionLog.view) }
      else none
    | none => none
  | .arrive_logs =>
    match p.logs_request with
    | some logs => some { p with cache := { p.cache with logs := some logs }, logs_request := none }
    | none => none
  | .message =>
    match (m.hub.frames tab.socket)[p.processed]? with
    | some frame =>
      some { p with cache := p.cache.on_message frame, processed := p.processed + 1 }
    | none => none

/-- The back end and one page. -/
structure Viewer where
  monitor : Monitor
  page : Page

inductive ViewerAction where
  | monitor (a : MonitorAction)
  | page (a : PageAction)

def Viewer.init : Viewer := ⟨Monitor.init, {}⟩

def Viewer.step (env : Env) (tab : Tab) (b : Viewer) : ViewerAction → Option Viewer
  | .monitor a => (b.monitor.step env a).map fun m => { b with monitor := m }
  | .page a => (b.page.act env tab b.monitor a).map fun p => { b with page := p }

/-! ## The last write -/

section LastWrite

variable {e : ℕ} {n : String} {node : NodeView} {frame : Frame} {frames frames' : List Frame}

/-- What a list of frames makes of a node. -/
def NodeView.after (node : NodeView) (frames : List Frame) : NodeView :=
  frames.foldl NodeView.on_frame node

/-- The envelopes among frames. -/
def envelopes (frames : List Frame) : List Envelope := frames.filterMap Frame.envelope?

theorem envelopes_append (frames frames' : List Frame) :
    envelopes (frames ++ frames') = envelopes frames ++ envelopes frames' :=
  List.filterMap_append ..

theorem NodeView.after_append (node : NodeView) (frames frames' : List Frame) :
    node.after (frames ++ frames') = (node.after frames).after frames' :=
  List.foldl_append ..

/-- A frame is an update of the node, or it leaves the node alone. -/
inductive Frame.For (e : ℕ) (frame : Frame) (node : NodeView) : Prop
  | other (hnone : node_events e node.node_id (envelopes [frame]) = [])
      (hsame : node.on_frame frame = node)
  | update (event : Envelope) (status : NodeExecutionStatus) (attempt : ℕ)
      (hevent : node_events e node.node_id (envelopes [frame]) = [event])
      (hdata : event.data = .node_updated node.node_id status attempt)
      (hnode : node.on_frame frame
        = { node with status, attempt := if attempt = 0 then node.attempt else attempt })

theorem Frame.for_node (hframe : ∀ event ∈ envelopes [frame], event.execution_id = e)
    (node : NodeView) : Frame.For e frame node := by
  cases frame with
  | ping => exact .other rfl rfl
  | event envelope =>
      obtain ⟨e', time, data⟩ := envelope
      have he : e' = e := hframe _ (List.mem_singleton_self _)
      cases data with
      | execution_updated status => exact .other rfl rfl
      | execution_log log => exact .other rfl rfl
      | node_updated m status attempt =>
          by_cases hm : m = node.node_id
          · refine .update ⟨e', time, .node_updated m status attempt⟩ status attempt ?_ ?_ ?_
            · simp [node_events, envelopes, Frame.envelope?, Envelope.about, he, hm]
            · rw [hm]
            · rw [NodeView.on_frame, NodeView.on_update, if_pos hm.symm]
          · refine .other ?_ ?_
            · simp [node_events, envelopes, Frame.envelope?, Envelope.about, hm]
            · rw [NodeView.on_frame, NodeView.on_update, if_neg (Ne.symm hm)]

theorem NodeView.on_frame_node_id (node : NodeView) (frame : Frame) :
    (node.on_frame frame).node_id = node.node_id := by
  unfold NodeView.on_frame NodeView.on_update
  split
  · split <;> rfl
  · rfl

/-- Frames do not rename a node. -/
theorem NodeView.after_node_id (node : NodeView) (frames : List Frame) :
    (node.after frames).node_id = node.node_id := by
  induction frames generalizing node with
  | nil => rfl
  | cons frame frames ih => exact (ih (node.on_frame frame)).trans (node.on_frame_node_id frame)

/-- What a node is after its updates: as it was, if there are none, and
otherwise as the last one says, as long as that one has the highest attempt. -/
structure NodeView.Shows (node : NodeView) (events : List Envelope) (k : ℕ)
    (node' : NodeView) : Prop where
  attempt_le : node'.attempt ≤ k
  same : events = [] → node' = node
  last : ∀ event status, events.getLast? = some event →
    event.data = .node_updated node.node_id status k → node'.status = status ∧ node'.attempt = k

/-- **The last write wins.** By induction on the frames from the end. A frame about
another node changes nothing. One about this node overwrites the status, and the attempt
unless it is 0, which the page takes for a missing one; for that case the statement keeps
a bound on the attempt instead of its value. -/
theorem NodeView.after_shows (node : NodeView) {k : ℕ} (hk : node.attempt ≤ k)
    (hframes : ∀ event ∈ envelopes frames, event.execution_id = e)
    (hle : AttemptsLe e node.node_id k (envelopes frames)) :
    node.Shows (node_events e node.node_id (envelopes frames)) k (node.after frames) := by
  induction frames using List.reverseRecOn with
  | nil => exact ⟨hk, fun _ => rfl, fun _ _ hlast => by cases hlast⟩
  | append_singleton frames frame ih =>
      rw [envelopes_append] at hframes hle ⊢
      unfold AttemptsLe at hle
      rw [node_events_append] at hle ⊢
      have hnode := node.after_node_id frames
      have hbefore := ih (fun event hevent => hframes event (List.mem_append_left _ hevent))
        fun event hevent => hle event (List.mem_append_left _ hevent)
      rw [NodeView.after_append]
      change node.Shows _ k ((node.after frames).on_frame frame)
      have hfor : Frame.For e frame (node.after frames) :=
        Frame.for_node (fun event hevent => hframes event (List.mem_append_right _ hevent)) _
      cases hfor with
      | other hnone hkeep =>
          rw [hnode] at hnone
          rw [hnone, List.append_nil, hkeep]
          exact hbefore
      | update event status attempt hevent hdata hnew =>
          rw [hnode] at hevent hdata
          rw [hevent] at hle ⊢
          rw [hnew]
          have hattempt : attempt ≤ k :=
            hle event (List.mem_append_right _ (List.mem_singleton_self _)) status attempt hdata
          refine ⟨?_, fun hnil => by simp at hnil, fun event' status' hlast hdata' => ?_⟩
          · dsimp only
            split
            · exact hbefore.attempt_le
            · exact hattempt
          · rw [List.getLast?_concat, Option.some.injEq] at hlast
            subst hlast
            rw [hdata, EventData.node_updated.injEq] at hdata'
            obtain ⟨-, rfl, rfl⟩ := hdata'
            refine ⟨rfl, ?_⟩
            dsimp only
            split
            · -- attempt 0 is the highest, so the old one is 0 too
              have := hbefore.attempt_le
              omega
            · rfl

end LastWrite

/-! ## The page beside a run -/

/-- The nodes of a copy, as they were read after `read_at` committed events: the
last of a node's events by then carries its status and attempt. -/
def ExecutionView.ReadAt (e : ℕ) (committed : List Envelope) (view : ExecutionView)
    (read_at : ℕ) : Prop :=
  read_at ≤ committed.length ∧ ∀ node ∈ view.node_executions, ∃ row : NodeExecution,
    node.status = row.status ∧ node.attempt = row.attempt ∧
      Shown node.node_id (node_events e node.node_id (committed.take read_at)) row

/-- The frames that the handler has seen since the copy arrived. -/
def Viewer.seen (tab : Tab) (b : Viewer) : List Frame :=
  ((b.monitor.hub.frames tab.socket).take b.page.processed).drop b.page.arrived

/-- What holds of the page. -/
structure PageInv (tab : Tab) (b : Viewer) : Prop where
  arrived_le : b.page.arrived ≤ b.page.processed
  processed_le : b.page.processed ≤ (b.monitor.hub.frames tab.socket).length
  /-- The copy is what the frames since its arrival have made of the response. -/
  cache : ∀ view, b.page.cache.execution = some view → ∃ base : ExecutionView,
    base.ReadAt tab.execution_id b.monitor.sys.committed b.page.read_at ∧
      view.node_executions = base.node_executions.map fun node => node.after (b.seen tab)
  request : ∀ view read_at, b.page.request = .answered view read_at →
    view.ReadAt tab.execution_id b.monitor.sys.committed read_at

section PageInv

variable {env : Env} {tab : Tab} {b : Viewer} {s s' : Sys} {a : Action} {h h' : Hub}
  {p p' : Page} {e read_at : ℕ} {committed more : List Envelope} {view : ExecutionView}

theorem ExecutionView.ReadAt.append (hv : view.ReadAt e committed read_at) :
    view.ReadAt e (committed ++ more) read_at := by
  refine ⟨by rw [List.length_append]; exact hv.1.trans (Nat.le_add_right _ _), fun node hnode => ?_⟩
  rw [List.take_append_of_le_length hv.1]
  exact hv.2 node hnode

theorem PageInv.frames (hi : PageInv tab ⟨⟨s, h⟩, p⟩)
    (hgrow : h.frames tab.socket <+: h'.frames tab.socket) : PageInv tab ⟨⟨s, h'⟩, p⟩ := by
  have hseen : Viewer.seen tab ⟨⟨s, h'⟩, p⟩ = Viewer.seen tab ⟨⟨s, h⟩, p⟩ := by
    obtain ⟨rest, hrest⟩ := hgrow
    change ((h'.frames tab.socket).take p.processed).drop p.arrived
      = ((h.frames tab.socket).take p.processed).drop p.arrived
    rw [← hrest, List.take_append_of_le_length hi.processed_le]
  refine ⟨hi.arrived_le, hi.processed_le.trans hgrow.length_le, fun view hview => ?_, hi.request⟩
  rw [hseen]
  exact hi.cache view hview

theorem PageInv.engine (hi : PageInv tab ⟨⟨s, h⟩, p⟩)
    (hgrow : ∃ more, s'.committed = s.committed ++ more) : PageInv tab ⟨⟨s', h⟩, p⟩ := by
  obtain ⟨more, hmore⟩ := hgrow
  refine ⟨hi.arrived_le, hi.processed_le, fun view hview => ?_, fun view read_at hreq => ?_⟩
  · obtain ⟨base, hbase, hnodes⟩ := hi.cache view hview
    refine ⟨base, ?_, hnodes⟩
    change base.ReadAt _ s'.committed _
    rw [hmore]
    exact hbase.append
  · change view.ReadAt _ s'.committed _
    rw [hmore]
    exact (hi.request view read_at hreq).append

/-- What the nodes are when they are read. -/
theorem readAt_of_readable (ho : OrderInv s) {status : ExecutionStatus} :
    ExecutionView.ReadAt tab.execution_id s.committed
      ⟨status, (s.readable env tab).elim [] ExecutionRows.node_views⟩ s.committed.length := by
  refine ⟨le_rfl, fun node hnode => ?_⟩
  dsimp only at hnode
  cases hr : s.readable env tab with
  | none =>
      rw [hr] at hnode
      cases hnode
  | some rows =>
      rw [hr] at hnode
      obtain ⟨hrows, -⟩ := Option.filter_eq_some_iff.mp hr
      obtain ⟨n, -, rfl⟩ := List.mem_map.mp hnode
      refine ⟨rows.nodes.row n, rfl, rfl, ?_⟩
      rw [List.take_length]
      exact ho.shown _ rows n hrows

/-- What the page does by itself. A response replaces the copy by one of the rows as they
were when it was read, and the frames that are handled after it are applied to this one; a
request notes the point of the log up to which its answer knows everything. The two never
meet in one step. -/
theorem PageInv.act (hi : PageInv tab ⟨⟨s, h⟩, p⟩) (ho : OrderInv s) {c : PageAction}
    (hact : p.act env tab ⟨s, h⟩ c = some p') : PageInv tab ⟨⟨s, h⟩, p'⟩ := by
  cases c with
  | fetch =>
      simp only [Page.act] at hact
      split at hact
      · cases hact
        exact ⟨hi.arrived_le, hi.processed_le, hi.cache, fun view read_at hreq => by cases hreq⟩
      · cases hact
  | fetch_nodes =>
      simp only [Page.act] at hact
      split at hact
      · cases hact
        refine ⟨hi.arrived_le, hi.processed_le, hi.cache, fun view read_at hreq => ?_⟩
        cases hreq
        exact readAt_of_readable ho
      · cases hact
  | arrive =>
      simp only [Page.act] at hact
      split at hact
      · rename_i view read_at hreq
        cases hact
        refine ⟨le_rfl, hi.processed_le, fun view' hview => ?_, fun _ _ hreq' => by cases hreq'⟩
        cases hview
        refine ⟨view, hi.request view read_at hreq, ?_⟩
        -- no frame has been seen since
        have hnil : Viewer.seen tab ⟨⟨s, h⟩, { p with
            cache := { p.cache with execution := some view }
            request := .none
            read_at
            arrived := p.processed }⟩ = [] := by
          change ((h.frames tab.socket).take p.processed).drop p.processed = []
          rw [List.drop_eq_nil_iff, List.length_take]
          exact min_le_left _ _
        rw [hnil]
        exact (List.map_id _).symm
      · cases hact
  | fetch_logs =>
      simp only [Page.act] at hact
      split at hact
      · split at hact
        · cases hact
          exact ⟨hi.arrived_le, hi.processed_le, hi.cache, hi.request⟩
        · cases hact
      · cases hact
  | arrive_logs =>
      simp only [Page.act] at hact
      split at hact
      · cases hact
        exact ⟨hi.arrived_le, hi.processed_le, hi.cache, hi.request⟩
      · cases hact
  | message =>
      simp only [Page.act] at hact
      split at hact
      · rename_i frame hframe
        cases hact
        have hlt : p.processed < (h.frames tab.socket).length :=
          (List.getElem?_eq_some_iff.mp hframe).choose
        refine ⟨hi.arrived_le.trans (Nat.le_succ _), hlt, fun view hview => ?_, hi.request⟩
        obtain ⟨old, hold, rfl⟩ := Option.map_eq_some_iff.mp hview
        obtain ⟨base, hbase, hnodes⟩ := hi.cache old hold
        refine ⟨base, hbase, ?_⟩
        have hseen : ((h.frames tab.socket).take (p.processed + 1)).drop p.arrived
            = ((h.frames tab.socket).take p.processed).drop p.arrived ++ [frame] := by
          have hle : p.arrived ≤ ((h.frames tab.socket).take p.processed).length := by
            rw [List.length_take]
            have := hi.arrived_le
            dsimp only at this
            omega
          rw [List.take_add_one, hframe, List.drop_append_of_le_length hle]
          rfl
        change old.node_executions.map _ = base.node_executions.map fun node =>
          node.after (((h.frames tab.socket).take (p.processed + 1)).drop p.arrived)
        rw [hnodes, List.map_map, hseen]
        refine List.map_congr_left fun node _ => ?_
        rw [NodeView.after_append]
        rfl
      · cases hact

end PageInv

/-! ## Every run -/

/-- The engine moves a node on only while nobody has an event of it to flush; the
API process and the page are free. -/
def Viewer.Announced (b : Viewer) : ViewerAction → Prop
  | .monitor (.engine a) => b.monitor.sys.Announced a
  | _ => True

/-- What holds of the engine, the API process and the page together. -/
structure ViewerInv (env : Env) (tab : Tab) (b : Viewer) : Prop where
  typed : b.monitor.sys.Typed env
  hub : HubInv b.monitor.sys.channel b.monitor.hub
  order : OrderInv b.monitor.sys
  attempts : AttemptsAnnounced b.monitor.sys
  page : PageInv tab b

section ViewerInv

variable {env : Env} {tab : Tab} {b b' : Viewer} {s s' : Sys} {h : Hub} {p : Page} {a : Action}

theorem orderInv_init : OrderInv Sys.init := by
  refine ⟨by simp [Sys.init], fun _ _ => rfl, fun _ _ _ _ _ hp => (by cases hp), fun e n => ?_,
    by simp [Sys.init]⟩
  exact ⟨0, fun _ _ => rfl, List.prefix_rfl, fun _ => rfl⟩

theorem viewerInv_init : ViewerInv env tab Viewer.init := by
  refine ⟨typed_init, hubInv_init, orderInv_init, ?_, ?_⟩
  · intro e rows n hrows
    cases hrows
  · refine ⟨le_rfl, Nat.zero_le _, fun view hview => ?_, fun view read_at hreq => ?_⟩
    · cases hview
    · cases hreq

theorem Effect.committed_grows (h : Effect env s a s') :
    ∃ more, s'.committed = s.committed ++ more := by
  cases h.moves with
  | nothing htasks hcommitted hchannel => exact ⟨[], by rw [hcommitted, List.append_nil]⟩
  | moved t sent new ht htasks hcommitted hchannel hle => exact ⟨new, hcommitted⟩

theorem ViewerInv.effect (hi : ViewerInv env tab ⟨⟨s, h⟩, p⟩) (hann : s.Announced a)
    (heff : Effect env s a s') : ViewerInv env tab ⟨⟨s', h⟩, p⟩ := by
  refine ⟨heff.typed hi.typed, ?_, hi.order.effect hi.typed heff hann,
    hi.attempts.effect hi.order.fresh heff hann.atomic, hi.page.engine heff.committed_grows⟩
  obtain ⟨more, hmore⟩ := heff.channel_grows
  change HubInv s'.channel h
  rw [hmore]
  exact hi.hub.append more

theorem ViewerInv.clock (hi : ViewerInv env tab ⟨⟨s, h⟩, p⟩) (clock : ℕ) :
    ViewerInv env tab ⟨⟨{ s with clock := clock }, h⟩, p⟩ :=
  ⟨⟨hi.typed.rows, hi.typed.fresh, hi.typed.stream, hi.typed.tasks⟩, hi.hub,
    ⟨hi.order.fresh, hi.order.silent, hi.order.publishing, hi.order.order, hi.order.shown⟩,
    hi.attempts, ⟨hi.page.arrived_le, hi.page.processed_le, hi.page.cache, hi.page.request⟩⟩

theorem ViewerInv.step {c : ViewerAction} (hi : ViewerInv env tab b) (hann : b.Announced c)
    (hstep : b.step env tab c = some b') : ViewerInv env tab b' := by
  cases c with
  | monitor c =>
      obtain ⟨m, hm, rfl⟩ := Option.map_eq_some_iff.mp hstep
      cases c with
      | engine a =>
          obtain ⟨s', hs', rfl⟩ := Option.map_eq_some_iff.mp hm
          obtain ⟨w, hw, rfl⟩ := Option.map_eq_some_iff.mp hs'
          exact (hi.effect hann (effect_of_act hi.typed hw)).clock _
      | hub c =>
          obtain ⟨h', hh', rfl⟩ := Option.map_eq_some_iff.mp hm
          exact ⟨hi.typed, hi.hub.act hh', hi.order, hi.attempts,
            hi.page.frames (hi.hub.frames_grow hh' _)⟩
  | page c =>
      obtain ⟨p', hp', rfl⟩ := Option.map_eq_some_iff.mp hstep
      exact ⟨hi.typed, hi.hub, hi.order, hi.attempts, hi.page.act hi.order hp'⟩

theorem viewerInv_of_reaches
    (hrun : Reaches (Viewer.step env tab) Viewer.Announced Viewer.init b) :
    ViewerInv env tab b :=
  hrun.invariant (ViewerInv env tab) viewerInv_init fun _ _ _ hu hann hstep =>
    hu.step hann hstep

/-- Two rows with the same events are level. -/
theorem Shown.level {n : String} {events : List Envelope} {row row' : NodeExecution}
    (h : Shown n events row) (h' : Shown n events row') :
    row.status = row'.status ∧ row.attempt = row'.attempt := by
  cases h with
  | untouched hnone hst hatt =>
      cases h' with
      | untouched hnone' hst' hatt' => exact ⟨hst.trans hst'.symm, hatt.trans hatt'.symm⟩
      | last event hlast =>
          rw [hnone] at hlast
          cases hlast
  | last event hlast hdata =>
      cases h' with
      | untouched hnone =>
          rw [hnone] at hlast
          cases hlast
      | last event' hlast' hdata' =>
          rw [hlast, Option.some.injEq] at hlast'
          subst hlast'
          rw [hdata, EventData.node_updated.injEq] at hdata'
          exact hdata'.2

/-- A row that was shown by committed events has no higher attempt than now. -/
theorem Shown.attempt_le {e k : ℕ} {n : String} {events committed : List Envelope}
    {row : NodeExecution} (h : Shown n (node_events e n events) row)
    (hle : AttemptsLe e n k committed) (hsub : events.Sublist committed) : row.attempt ≤ k := by
  cases h with
  | untouched hnone hst hatt => exact hatt ▸ Nat.zero_le _
  | last event hlast hdata =>
      exact hle.of_sublist hsub event (List.mem_of_getLast? hlast) _ _ hdata

/-- The topic of the socket says the execution, so that it does not filter the
events of its nodes. -/
theorem node_events_about (e : ℕ) (n : String) (events : List Envelope) :
    node_events e n (events.filter (about e)) = node_events e n events := by
  unfold node_events
  rw [List.filter_filter]
  refine List.filter_congr fun event _ => ?_
  unfold Envelope.about
  split
  · by_cases he : event.execution_id = e
    · simp [about, he]
    · simp [he]
  · rw [Bool.false_and]

end ViewerInv

/-- **When the page is right.** Everything is at rest: the socket is live, the listener
has broadcast all messages, the handler has seen all frames, and nobody has an event of
the node to flush. The run has announced the events of a node in the order of its commits
([`Viewer.Announced`]). Then the page shows the status and the attempt of the node's row,
if it has seen an update of the node since its copy arrived, or if no event of the node
has been committed since the copy was read.

The copy of a node shows the last write to it. If this was a frame, it is the last event
of the node on the channel, since a live socket has been sent all of them ([`HubInv`]);
and the last event on the channel is the row, since the channel follows the commits and
nothing is left to flush ([`OrderInv`]). If it was a response, nothing has been committed
about the node since. -/
theorem page_shows_row (env : Env) (tab : Tab) (b : Viewer)
    (hrun : Reaches (Viewer.step env tab) Viewer.Announced Viewer.init b) (socket : Socket)
    (hs : b.monitor.hub.sockets tab.socket = some socket)
    (hid : socket.execution_id = tab.execution_id) (hlive : socket.live)
    (hdone : b.monitor.hub.broadcasting = none)
    (htaken : b.monitor.hub.taken = b.monitor.sys.channel.length)
    (hseen : b.page.processed = socket.frames.length) (rows : ExecutionRows)
    (hrows : b.monitor.sys.executions tab.execution_id = some rows) (view : ExecutionView)
    (hview : b.page.cache.execution = some view) (node : NodeView)
    (hnode : node ∈ view.node_executions)
    (hflushed : ∀ t, b.monitor.sys.staged t tab.execution_id node.node_id = [])
    (hfresh : node_events tab.execution_id node.node_id (envelopes (b.seen tab)) ≠ [] ∨
      node_events tab.execution_id node.node_id
        (b.monitor.sys.committed.drop b.page.read_at) = []) :
    node.status = (rows.nodes.row node.node_id).status ∧
      node.attempt = (rows.nodes.row node.node_id).attempt := by
  have hinv := viewerInv_of_reaches hrun
  obtain ⟨base, hbase, hnodes⟩ := hinv.page.cache view hview
  rw [hnodes] at hnode
  obtain ⟨old, hold, rfl⟩ := List.mem_map.mp hnode
  rw [NodeView.after_node_id] at hflushed hfresh ⊢
  have hrow : Shown old.node_id (node_events tab.execution_id old.node_id
      b.monitor.sys.committed) (rows.nodes.row old.node_id) :=
    hinv.order.shown _ rows _ hrows
  have hattempts := hinv.attempts _ rows old.node_id hrows
  obtain ⟨row₀, hst₀, hatt₀, hshown₀⟩ := hbase.2 old hold
  have hold_le : old.attempt ≤ (rows.nodes.row old.node_id).attempt :=
    hatt₀ ▸ hshown₀.attempt_le hattempts (List.take_sublist _ _)
  -- the events that the socket has been sent, up to the last one on the channel
  obtain ⟨-, hevents⟩ := hinv.hub.complete _ socket hs hlive
  rw [Hub.served_of_not_pending (Hub.pending_of_none hdone), htaken, feed, List.take_length,
    hid] at hevents
  have hsent : envelopes socket.frames
      = (b.monitor.sys.channel.drop socket.since).filter (about tab.execution_id) := hevents
  have hnew : b.seen tab = socket.frames.drop b.page.arrived := by
    unfold Viewer.seen Hub.frames
    rw [hs, Option.elim_some, hseen, List.take_length]
  have hsplit : envelopes socket.frames
      = envelopes (socket.frames.take b.page.arrived) ++ envelopes (b.seen tab) := by
    rw [hnew, ← envelopes_append, List.take_append_drop]
  -- so what the page has seen since the arrival ends what has been committed
  have hne : b.monitor.sys.executions tab.execution_id ≠ none := by simp [hrows]
  have hcommitted : ∃ before, node_events tab.execution_id old.node_id b.monitor.sys.committed
      = before ++ node_events tab.execution_id old.node_id (envelopes (b.seen tab)) := by
    refine ⟨node_events tab.execution_id old.node_id (b.monitor.sys.channel.take socket.since)
      ++ node_events tab.execution_id old.node_id
        (envelopes (socket.frames.take b.page.arrived)), ?_⟩
    rw [← (hinv.order.whole hne old.node_id).channel_eq hflushed, List.append_assoc,
      ← node_events_append, ← hsplit, hsent, node_events_about, ← node_events_append,
      List.take_append_drop]
  obtain ⟨before, hcommitted⟩ := hcommitted
  have hshows : old.Shows (node_events tab.execution_id old.node_id (envelopes (b.seen tab)))
      (rows.nodes.row old.node_id).attempt (old.after (b.seen tab)) := by
    refine old.after_shows hold_le (fun event hevent => ?_) fun event hevent => ?_
    · have hmem : event ∈ envelopes socket.frames := hsplit ▸ List.mem_append_right _ hevent
      rw [hsent] at hmem
      exact of_decide_eq_true (List.mem_filter.mp hmem).2
    · exact hattempts event (hcommitted ▸ List.mem_append_right _ hevent)
  by_cases hnil : node_events tab.execution_id old.node_id (envelopes (b.seen tab)) = []
  · -- no update has been seen, and none was committed after the read
    have hdrop := hfresh.resolve_left fun hne => hne hnil
    have hread : node_events tab.execution_id old.node_id b.monitor.sys.committed
        = node_events tab.execution_id old.node_id
          (b.monitor.sys.committed.take b.page.read_at) := by
      conv_lhs => rw [← List.take_append_drop b.page.read_at b.monitor.sys.committed]
      rw [node_events_append, hdrop, List.append_nil]
    rw [hread] at hrow
    rw [hshows.same hnil, hst₀, hatt₀]
    exact hshown₀.level hrow
  · -- the last update seen is the last event committed
    have hlast := List.getLast?_eq_some_getLast hnil
    cases hrow with
    | untouched hnone =>
        rw [hcommitted, List.append_eq_nil_iff] at hnone
        exact absurd hnone.2 hnil
    | last event hevent hdata =>
        rw [hcommitted, List.getLast?_append, hlast, Option.some_or] at hevent
        rw [hevent] at hlast
        exact hshows.last event _ hlast hdata

/-! ### One page -/

/-- `Announced`, looked at for the first `bound` tasks. -/
def Viewer.announced (bound : ℕ) (b : Viewer) : ViewerAction → Bool
  | .monitor (.engine a) => a.below bound && b.monitor.sys.announced bound a
  | _ => true

/-- A concrete run of the first few tasks. -/
theorem announced_of_run {env : Env} {tab : Tab} {bound : ℕ} {b : Viewer}
    {as : List ViewerAction}
    (hrun : run (restrict (Viewer.step env tab) (Viewer.announced bound)) Viewer.init as
      = some b) :
    Reaches (Viewer.step env tab) Viewer.Announced Viewer.init b ∧
      b.monitor.sys.IdleFrom bound := by
  have hkeep : ∀ (u : Viewer) (c : ViewerAction) (v : Viewer),
      u.monitor.sys.Typed env ∧ u.monitor.sys.IdleFrom bound → u.announced bound c = true →
        u.step env tab c = some v → v.monitor.sys.Typed env ∧ v.monitor.sys.IdleFrom bound := by
    rintro u c v ⟨ht, hidle⟩ hc hs
    cases c with
    | monitor c =>
        obtain ⟨m, hm, rfl⟩ := Option.map_eq_some_iff.mp hs
        cases c with
        | engine a =>
            obtain ⟨s', hs', rfl⟩ := Option.map_eq_some_iff.mp hm
            exact ⟨typed_of_step ht hs', hidle.step ht (Bool.and_elim_left hc) hs'⟩
        | hub c =>
            obtain ⟨h', -, rfl⟩ := Option.map_eq_some_iff.mp hm
            exact ⟨ht, hidle⟩
    | page c =>
        obtain ⟨p', -, rfl⟩ := Option.map_eq_some_iff.mp hs
        exact ⟨ht, hidle⟩
  have hreach := reaches_of_run hrun
  have hinit : Viewer.init.monitor.sys.Typed env ∧ Viewer.init.monitor.sys.IdleFrom bound :=
    ⟨typed_init, fun _ _ => rfl⟩
  refine ⟨hreach.mono_of_invariant _ hinit hkeep ?_, (hreach.invariant _ hinit hkeep).2⟩
  rintro u c ⟨-, hidle⟩ hc
  cases c with
  | monitor c =>
      cases c with
      | engine a => exact Sys.announced_of_check hidle (Bool.and_elim_right hc)
      | hub c => trivial
  | page c => trivial

/-- The page of `solo`, which its owner opens at once. -/
def solo_tab : Tab := ⟨0, 0, 5⟩

/-- The page reads QUEUED, a worker starts the node, and the page is told. -/
def solo_page : List ViewerAction :=
  [.monitor (.engine (.start 0 0 none 0)), .page .fetch, .page .fetch_nodes, .page .arrive,
    .monitor (.engine (.publish 0)), .monitor (.engine (.finish 0)),
    .monitor (.engine (.flush 0)), .monitor (.engine (.flush 0)), .monitor (.engine (.flush 0)),
    .monitor (.hub (.take [])), .monitor (.hub (.take [])), .monitor (.hub (.take [])),
    .monitor (.hub (.opened 5 0 (some 0))), .monitor (.hub (.authorize 5)),
    .monitor (.hub (.connect 5)), .monitor (.engine (.claim 1 0)),
    .monitor (.engine (.flush 1)), .monitor (.hub (.take [5])), .monitor (.hub .send),
    .monitor (.hub .done), .page .message,
    .monitor (.engine (.flush 1)), .monitor (.hub (.take [5])), .monitor (.hub .send),
    .monitor (.hub .done), .page .message]

/-- Everything that the page of `solo` needs for being right. -/
def Viewer.at_rest (b : Viewer) : Bool :=
  (b.monitor.hub.sockets 5).any (fun socket => decide (socket.execution_id = 0 ∧
    (socket.stage = .registered ∧ socket.broken = false) ∧
    b.page.processed = socket.frames.length)) &&
  (b.monitor.hub.broadcasting.isNone &&
  (decide (b.monitor.hub.taken = b.monitor.sys.channel.length) &&
  ((b.monitor.sys.executions 0).isSome &&
  (b.page.cache.execution.any (fun view =>
    decide ((⟨"a", .RUNNING, 1⟩ : NodeView) ∈ view.node_executions)) &&
  ((List.range 2).all (fun t => (b.monitor.sys.staged t 0 "a").isEmpty) &&
  !(node_events 0 "a" (envelopes (b.seen solo_tab))).isEmpty)))))

/-- The page shows RUNNING, and so it is. -/
theorem page_shows_row_solo : ∃ (b : Viewer) (rows : ExecutionRows),
    b.monitor.sys.executions 0 = some rows ∧ (rows.nodes.row "a").status = .RUNNING ∧
      (rows.nodes.row "a").attempt = 1 := by
  have hrun : (run (restrict (Viewer.step (env_of solo) solo_tab) (Viewer.announced 2))
      Viewer.init solo_page).any Viewer.at_rest = true := by decide +kernel
  obtain ⟨b, hb, hrest⟩ := (Option.any_eq_true _ _).mp hrun
  obtain ⟨hreach, hidle⟩ := announced_of_run hb
  simp only [Viewer.at_rest, Bool.and_eq_true] at hrest
  obtain ⟨hsocket, hdone, htaken, hrows, hview, hflushed, hseen⟩ := hrest
  obtain ⟨socket, hs, hsocket⟩ := (Option.any_eq_true _ _).mp hsocket
  obtain ⟨hid, hlive, hprocessed⟩ := of_decide_eq_true hsocket
  obtain ⟨rows, hrows⟩ := Option.isSome_iff_exists.mp hrows
  obtain ⟨view, hview, hnode⟩ := (Option.any_eq_true _ _).mp hview
  have hnone : ∀ t, b.monitor.sys.staged t 0 "a" = [] := by
    intro t
    by_cases ht : t < 2
    · exact List.isEmpty_iff.mp (List.all_eq_true.mp hflushed t (List.mem_range.mpr ht))
    · rw [Sys.staged, hidle t (not_lt.mp ht)]
      rfl
  have hupdate : node_events 0 "a" (envelopes (b.seen solo_tab)) ≠ [] := by
    intro hnil
    rw [hnil] at hseen
    cases hseen
  obtain ⟨hst, hatt⟩ := page_shows_row (env_of solo) solo_tab b hreach socket hs hid hlive
    (Option.isNone_iff_eq_none.mp hdone) (of_decide_eq_true htaken) hprocessed rows hrows view
    hview ⟨"a", .RUNNING, 1⟩ (of_decide_eq_true hnode) hnone (.inl hupdate)
  exact ⟨b, rows, hrows, hst.symm, hatt.symm⟩

end EventFlow
