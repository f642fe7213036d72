/-
A stream and one consumer group that reads it.

The stream is a list that only grows, and the id of an entry is its position. The
group keeps the first position it has not delivered and its pending list. Reading
new entries (`XREADGROUP ... >`) delivers the next ones and makes them pending;
what becomes of pending entries is up to `Library/PendingList.lean`. A group was
created at the beginning of its stream, so what is below `next` has been delivered.

Pending entries have been delivered, and delivered entries are in the stream: both
are fields of the structure.
-/
import EventFlow.Library.PendingList
import Mathlib.Data.List.Range

set_option autoImplicit false

/-- A stream with a consumer group. The stream is only appended to; `next` is the position
up to which entries have been delivered, and of these the pending list has those that have
not been acknowledged. -/
structure StreamGroup (φ : Type*) where
  stream : List φ
  next : ℕ
  pending : PendingList ℕ φ
  next_le : next ≤ stream.length
  pending_lt : ∀ e ∈ pending.entries, e.message_id < next

namespace StreamGroup

variable {φ : Type*} (g : StreamGroup φ)

/-- `XGROUP CREATE ... 0 MKSTREAM`. -/
def empty : StreamGroup φ where
  stream := []
  next := 0
  pending := { entries := [], sorted := .nil }
  next_le := le_rfl
  pending_lt := by simp

/-- `XADD`. -/
def add (fields : φ) : StreamGroup φ :=
  { g with
    stream := g.stream ++ [fields]
    next_le := g.next_le.trans (by simp) }

/-- The entries that the next read delivers. They are the next ones of the stream, as many
as asked for. -/
def unread (count : ℕ) : List (φ × ℕ) := ((g.stream.drop g.next).take count).zipIdx g.next

theorem unread_ids (count : ℕ) :
    (g.unread count).map Prod.snd
      = List.range' g.next (min count (g.stream.length - g.next)) := by
  rw [unread, List.zipIdx_map_snd, List.length_take, List.length_drop]

theorem unread_length (count : ℕ) :
    (g.unread count).length = min count (g.stream.length - g.next) := by
  rw [← List.length_map (f := Prod.snd), unread_ids, List.length_range']

theorem mem_unread {count : ℕ} {p : φ × ℕ} (h : p ∈ g.unread count) :
    g.next ≤ p.2 ∧ p.2 < g.next + (g.unread count).length := by
  have hmem := List.mem_map_of_mem (f := Prod.snd) h
  rw [unread_ids, List.mem_range'_1] at hmem
  rw [unread_length]
  exact hmem

/-- `XREADGROUP GROUP ... COUNT count STREAMS ... >`: the entries, and the group
that is left. -/
def read (consumer : String) (count : ℕ) : List (ℕ × φ) × StreamGroup φ :=
  ((g.unread count).map Prod.swap,
   { stream := g.stream
     next := g.next + (g.unread count).length
     pending :=
      { entries := g.pending.entries ++
          (g.unread count).map fun p => ⟨p.2, consumer, 0, p.1⟩
        sorted := by
          rw [List.pairwise_append]
          refine ⟨g.pending.sorted, ?_, ?_⟩
          · have hids : ((g.unread count).map Prod.snd).Pairwise (· < ·) := by
              rw [unread_ids]
              exact List.pairwise_lt_range'
            rw [List.pairwise_map] at hids ⊢
            exact hids
          · rintro a ha b hb
            obtain ⟨p, hp, rfl⟩ := List.mem_map.mp hb
            exact (g.pending_lt a ha).trans_le (g.mem_unread hp).1 }
     next_le := by
      rw [unread_length]
      have := g.next_le
      omega
     pending_lt := by
      intro e he
      rcases List.mem_append.mp he with he | he
      · exact (g.pending_lt e he).trans_le (Nat.le_add_right _ _)
      · obtain ⟨p, hp, rfl⟩ := List.mem_map.mp he
        exact (g.mem_unread hp).2 })

/-- Time passes. All entries have been idle for as much longer. -/
def elapse (ms : ℕ) : StreamGroup φ :=
  { g with
    pending :=
      { entries := g.pending.entries.map fun e => { e with idle := e.idle + ms }
        sorted := by
          rw [List.pairwise_map]
          exact g.pending.sorted }
    pending_lt := by
      intro e he
      obtain ⟨a, ha, rfl⟩ := List.mem_map.mp he
      exact g.pending_lt a ha }

/-- `XACK`. -/
def ack (id : ℕ) : StreamGroup φ :=
  { g with
    pending := g.pending.ack id
    pending_lt := fun e he => g.pending_lt e (List.mem_filter.mp he).1 }

/-- The pending list is rewritten under the same ids. -/
def with_pending (p : PendingList ℕ φ)
    (h : p.entries.map PendingEntry.message_id = g.pending.entries.map PendingEntry.message_id) :
    StreamGroup φ :=
  { g with
    pending := p
    pending_lt := by
      intro e he
      have hmem := List.mem_map_of_mem (f := PendingEntry.message_id) he
      rw [h] at hmem
      obtain ⟨a, ha, hid⟩ := List.mem_map.mp hmem
      exact hid ▸ g.pending_lt a ha }

/-! ## What is pending -/

variable {g} {id : ℕ}

theorem lt_of_pending (h : g.pending.Pending id) : id < g.next := by
  obtain ⟨e, he, rfl⟩ := h
  exact g.pending_lt e he

theorem pending_iff_mem {p : PendingList ℕ φ} :
    p.Pending id ↔ id ∈ p.entries.map PendingEntry.message_id := by
  rw [List.mem_map]
  rfl

/-- A read makes pending what it delivers. -/
theorem pending_read {consumer : String} {count : ℕ} :
    (g.read consumer count).2.pending.Pending id ↔
      g.pending.Pending id ∨ g.next ≤ id ∧ id < (g.read consumer count).2.next := by
  have hids : (g.read consumer count).2.pending.entries.map PendingEntry.message_id
      = g.pending.entries.map PendingEntry.message_id ++
        List.range' g.next (g.unread count).length := by
    rw [unread_length, ← unread_ids]
    simp [read]
  rw [pending_iff_mem, hids, List.mem_append, ← pending_iff_mem, List.mem_range'_1]
  rfl

theorem pending_elapse {ms : ℕ} : (g.elapse ms).pending.Pending id ↔ g.pending.Pending id := by
  rw [pending_iff_mem, pending_iff_mem]
  simp [elapse, Function.comp_def]

theorem pending_with_pending {p : PendingList ℕ φ}
    (h : p.entries.map PendingEntry.message_id = g.pending.entries.map PendingEntry.message_id) :
    (g.with_pending p h).pending.Pending id ↔ g.pending.Pending id := by
  rw [pending_iff_mem, pending_iff_mem, ← h]
  rfl

end StreamGroup
