/-
The pending entries list of a stream's consumer group.

An entry that has been delivered and not acknowledged is pending: the list
keeps, under its id, the consumer that owns it and how long ago it was
delivered. There is one entry per id, and entries are listed in the order of
their ids, so the list is kept sorted by construction. The three commands are
those of Redis: a range query that returns the entries with the lowest ids
(`XPENDING - + COUNT n`), a claim that hands entries which have been idle for
long enough to another consumer and resets their idle time (`XCLAIM`), and the
acknowledgement that takes an entry off (`XACK`).
-/
import Mathlib.Order.Lattice
import Mathlib.Data.List.Nodup
import Mathlib.Data.Int.Notation

set_option autoImplicit false

/-- An entry that has been delivered and not acknowledged. Its idle time starts again with
each delivery, by a read as by a claim. -/
structure PendingEntry (ι φ : Type*) where
  message_id : ι
  consumer : String
  idle : ℕ
  fields : φ
deriving DecidableEq

/-- The pending entries of a group, in the order of their ids. -/
structure PendingList (ι φ : Type*) [LinearOrder ι] where
  entries : List (PendingEntry ι φ)
  sorted : entries.Pairwise fun a b => a.message_id < b.message_id

namespace PendingList

variable {ι φ : Type*} [LinearOrder ι] (p : PendingList ι φ)

/-- `XPENDING - + COUNT count`. -/
def range (count : ℕ) : List (PendingEntry ι φ) := p.entries.take count

/-- What a claim does to one entry. It gets a new owner and its idle time starts again, if
it has been idle for long enough; else it stays as it is. -/
def claimed (consumer : String) (min_idle : ℤ) (ids : List ι) (e : PendingEntry ι φ) :
    PendingEntry ι φ :=
  if e.message_id ∈ ids ∧ min_idle ≤ e.idle then { e with consumer, idle := 0 } else e

@[simp] theorem claimed_message_id (consumer : String) (min_idle : ℤ) (ids : List ι)
    (e : PendingEntry ι φ) : (claimed consumer min_idle ids e).message_id = e.message_id := by
  unfold claimed
  split <;> rfl

/-- `XCLAIM`: the entries it returns, and the list it leaves. -/
def claim (consumer : String) (min_idle : ℤ) (ids : List ι) :
    List (ι × φ) × PendingList ι φ :=
  (ids.filterMap fun id =>
    (p.entries.find? fun e => decide (e.message_id = id ∧ min_idle ≤ e.idle)).map fun e =>
      (e.message_id, e.fields),
   { entries := p.entries.map (claimed consumer min_idle ids)
     sorted := by
      rw [List.pairwise_map]
      simpa using p.sorted })

/-- `XACK`. Whoever owns the entry, it is gone. -/
def ack (id : ι) : PendingList ι φ where
  entries := p.entries.filter fun e => decide (e.message_id ≠ id)
  sorted := p.sorted.filter _

/-- An entry is pending under this id. -/
def Pending (id : ι) : Prop := ∃ e ∈ p.entries, e.message_id = id

variable {p}

/-- There is one entry per id. -/
theorem nodup_ids (p : PendingList ι φ) : (p.entries.map PendingEntry.message_id).Nodup := by
  rw [List.nodup_iff_pairwise_ne, List.pairwise_map]
  exact p.sorted.imp fun h => ne_of_lt h

theorem eq_of_message_id {a b : PendingEntry ι φ} (ha : a ∈ p.entries) (hb : b ∈ p.entries)
    (h : a.message_id = b.message_id) : a = b :=
  List.inj_on_of_nodup_map p.nodup_ids ha hb h

/-- A claim by id finds the entry, if it has been idle for long enough. -/
theorem find_entry {e : PendingEntry ι φ} (he : e ∈ p.entries) {min_idle : ℤ}
    (hidle : min_idle ≤ e.idle) :
    (p.entries.find? fun a => decide (a.message_id = e.message_id ∧ min_idle ≤ a.idle))
      = some e := by
  cases hfind : p.entries.find? fun a =>
    decide (a.message_id = e.message_id ∧ min_idle ≤ a.idle) with
  | none =>
      have hno := List.find?_eq_none.mp hfind e he
      simp [hidle] at hno
  | some a =>
      have ha := List.find?_some hfind
      rw [decide_eq_true_eq] at ha
      rw [eq_of_message_id (List.mem_of_find?_eq_some hfind) he ha.1]

/-- Claiming entries of the list that have been idle for long enough returns all
of them. -/
theorem claim_entries {es : List (PendingEntry ι φ)} (hes : ∀ e ∈ es, e ∈ p.entries)
    {min_idle : ℤ} (hidle : ∀ e ∈ es, min_idle ≤ e.idle) (consumer : String) :
    (p.claim consumer min_idle (es.map PendingEntry.message_id)).1
      = es.map fun e => (e.message_id, e.fields) := by
  unfold claim
  dsimp only
  rw [List.filterMap_map, ← List.filterMap_eq_map]
  refine List.filterMap_congr fun e he => ?_
  rw [Function.comp_apply, find_entry (hes e he) (hidle e he)]
  rfl

/-- An acknowledgement takes its own entry off. -/
theorem pending_ack {id m : ι} : (p.ack m).Pending id ↔ p.Pending id ∧ id ≠ m := by
  simp only [Pending, ack, List.mem_filter, decide_eq_true_eq]
  constructor
  · rintro ⟨e, ⟨he, hne⟩, rfl⟩
    exact ⟨⟨e, he, rfl⟩, hne⟩
  · rintro ⟨⟨e, he, rfl⟩, hne⟩
    exact ⟨e, ⟨he, hne⟩, rfl⟩

end PendingList
