/-
Kahn's algorithm over an edge list, with in-degree counters and a FIFO queue.

The graph is a list of edges `(source, target)` over an arbitrary type;
repeated edges and loops are allowed. The loop takes a vertex from the front of
the queue, appends it to the order and decrements the counter of the target of
each of its edges; a target whose counter reaches zero joins the queue.

The counters are integers, as a loop that only ever subtracts would have them.
That they never go below zero is not assumed: it is part of the invariant
[`Inv`], which says that the counter of `x` is the number of edges into `x`
whose source has not been appended yet, and that exactly the vertices with
counter zero are in the order or in the queue.

The loop is bounded by a fuel argument; [`Loop`] is the same loop without the
bound, as a relation that holds if it ends. As many turns as there are vertices
are enough ([`Inv.loop`]). The facts about the result that the development uses
are [`sort_ordered`], [`sort_perm`] and [`sort_length_iff`]: whatever is
returned has every edge's source before its target, a result as long as the
vertex list is a permutation of it, and the result is that long exactly if the
graph is acyclic. What a graph with a cycle leaves in the end is a set of
vertices that all wait for another one of the set.
-/
import EventFlow.Library.EdgeGraph
import Mathlib.Data.List.Perm.Subperm
import Mathlib.Data.List.Count
import Mathlib.Data.List.Nodup
import Mathlib.Logic.Function.Basic
import Mathlib.Tactic.Ring

set_option autoImplicit false

namespace Kahn

variable {α : Type*} [DecidableEq α]

/-- The targets of the edges out of `x`, in edge order, with repetitions. -/
def successors (E : List (α × α)) (x : α) : List α :=
  (E.filter fun e => e.1 = x).map Prod.snd

/-- The loop over the successors of the vertex just taken: decrement the
counter of each, and queue it when the counter reaches zero. -/
def relax : List α → (α → ℤ) × List α → (α → ℤ) × List α
  | [], st => st
  | y :: ys, (deg, queue) =>
    let deg' := Function.update deg y (deg y - 1)
    relax ys (deg', if deg' y = 0 then queue ++ [y] else queue)

/-- The main loop. -/
def sort (adj : α → List α) : ℕ → List α → (α → ℤ) → List α → List α
  | 0, _, _, order => order
  | _ + 1, [], _, order => order
  | fuel + 1, curr :: queue, deg, order =>
    let st := relax (adj curr) (deg, queue)
    sort adj fuel st.2 st.1 (order ++ [curr])

/-- The loop `while queue` ends, and `result` is the order it has built. -/
inductive Loop (adj : α → List α) : List α → (α → ℤ) → List α → List α → Prop
  | done (deg : α → ℤ) (order : List α) : Loop adj [] deg order order
  | turn (curr : α) (queue : List α) (deg : α → ℤ) (order result : List α) :
      Loop adj (relax (adj curr) (deg, queue)).2 (relax (adj curr) (deg, queue)).1
        (order ++ [curr]) result →
      Loop adj (curr :: queue) deg order result

/-! ## One turn of the loop -/

/-- What is left of the counter of `x`: the edges into `x` whose source is not
in `order`. -/
def pending (E : List (α × α)) (order : List α) (x : α) : ℕ :=
  E.countP fun e => decide (e.2 = x ∧ e.1 ∉ order)

theorem mem_successors {E : List (α × α)} {x y : α} : y ∈ successors E x ↔ (x, y) ∈ E := by
  unfold successors
  simp only [List.mem_map, List.mem_filter, decide_eq_true_eq]
  constructor
  · rintro ⟨e, ⟨he, rfl⟩, rfl⟩
    exact he
  · intro h
    exact ⟨(x, y), ⟨h, rfl⟩, rfl⟩

/-- Appending `curr` to the order takes the edges from `curr` off the
counters. -/
theorem pending_append (E : List (α × α)) (order : List α) (curr x : α)
    (hcurr : curr ∉ order) :
    pending E order x = pending E (order ++ [curr]) x + (successors E curr).count x := by
  unfold pending successors
  induction E with
  | nil => rfl
  | cons e E ih =>
      obtain ⟨a, b⟩ := e
      simp only [List.countP_cons, List.filter_cons, decide_eq_true_eq, List.mem_append,
        List.mem_singleton, not_or] at ih ⊢
      by_cases ha : a = curr
      · subst ha
        simp only [if_true, List.map_cons, List.count_cons, beq_iff_eq, not_true_eq_false,
          and_false, if_false, hcurr, not_false_eq_true, and_true]
        omega
      · simp only [ha, if_false, not_false_eq_true, and_true]
        omega

/-- The counters after the inner loop: one less for each occurrence. -/
theorem relax_deg (ys : List α) (deg : α → ℤ) (queue : List α) (x : α) :
    (relax ys (deg, queue)).1 x = deg x - ys.count x := by
  induction ys generalizing deg queue with
  | nil => simp [relax]
  | cons y ys ih =>
      simp only [relax]
      rw [ih, List.count_cons]
      by_cases hxy : x = y
      · subst hxy
        simp only [Function.update_self, BEq.rfl, if_true]
        push_cast
        ring
      · rw [Function.update_of_ne hxy]
        have : (y == x) = false := by simpa using fun h => hxy h.symm
        simp [this]

/-- The queue after the inner loop, when no counter is overdrawn: what was
there, followed by the vertices whose counter has reached zero, each once. -/
theorem relax_queue (ys : List α) (deg : α → ℤ) (queue : List α)
    (hcount : ∀ x ∈ ys, (ys.count x : ℤ) ≤ deg x) :
    ∃ new, (relax ys (deg, queue)).2 = queue ++ new ∧ new.Nodup ∧
      ∀ x, x ∈ new ↔ x ∈ ys ∧ deg x = ys.count x := by
  induction ys generalizing deg queue with
  | nil => exact ⟨[], by simp [relax]⟩
  | cons y ys ih =>
      -- the counter of `y` covers this occurrence and all later ones
      have hy : (ys.count y : ℤ) + 1 ≤ deg y := by
        have := hcount y List.mem_cons_self
        rw [List.count_cons_self] at this
        push_cast at this
        exact this
      have hrest : ∀ x ∈ ys, (ys.count x : ℤ) ≤ Function.update deg y (deg y - 1) x := by
        intro x hx
        by_cases hxy : x = y
        · subst hxy
          rw [Function.update_self]
          omega
        · rw [Function.update_of_ne hxy]
          have := hcount x (List.mem_cons_of_mem _ hx)
          rwa [List.count_cons_of_ne (Ne.symm hxy)] at this
      simp only [relax]
      obtain ⟨new, hnew, hnodup, hmem⟩ := ih (Function.update deg y (deg y - 1))
        (if Function.update deg y (deg y - 1) y = 0 then queue ++ [y] else queue) hrest
      rw [Function.update_self] at hnew
      by_cases hzero : deg y - 1 = 0
      · -- `y` joins the queue now, and occurs no more in what is left
        have hcount0 : ys.count y = 0 := by omega
        have hynot : y ∉ ys := List.count_eq_zero.mp hcount0
        refine ⟨y :: new, ?_, ?_, ?_⟩
        · rw [Function.update_self, hnew, if_pos hzero, List.append_assoc, List.singleton_append]
        · refine List.nodup_cons.mpr ⟨fun h => hynot ((hmem y).mp h).1, hnodup⟩
        · intro x
          by_cases hxy : x = y
          · subst hxy
            simp only [List.mem_cons, true_or, List.count_cons_self, true_iff, true_and]
            push_cast
            omega
          · rw [List.mem_cons, or_iff_right hxy, hmem, Function.update_of_ne hxy,
              List.mem_cons, or_iff_right hxy, List.count_cons_of_ne (Ne.symm hxy)]
      · -- `y` is not done: it joins at a later occurrence or not at all
        refine ⟨new, ?_, hnodup, ?_⟩
        · rw [Function.update_self, hnew, if_neg hzero]
        · intro x
          rw [hmem]
          by_cases hxy : x = y
          · subst hxy
            rw [Function.update_self, List.count_cons_self, List.mem_cons]
            push_cast
            constructor
            · rintro ⟨h1, h2⟩
              exact ⟨.inl rfl, by omega⟩
            · rintro ⟨-, h2⟩
              refine ⟨?_, by omega⟩
              by_contra hno
              rw [List.count_eq_zero.mpr hno] at h2
              push_cast at h2
              exact hzero (by omega)
          · rw [Function.update_of_ne hxy, List.mem_cons, or_iff_right hxy,
              List.count_cons_of_ne (Ne.symm hxy)]

/-! ## The invariant -/

/-- The invariant of the main loop, over the vertex list `V` and edges `E`. -/
structure Inv (V : List α) (E : List (α × α)) (queue : List α) (deg : α → ℤ)
    (order : List α) : Prop where
  /-- No vertex is queued twice. -/
  nodup : (order ++ queue).Nodup
  /-- Only vertices are queued. -/
  vertices : ∀ x ∈ order ++ queue, x ∈ V
  /-- The counters count the edges from vertices not appended yet. -/
  deg_eq : ∀ x ∈ V, deg x = pending E order x
  /-- Exactly the vertices with counter zero have been queued. -/
  queued_iff : ∀ x ∈ V, x ∈ order ++ queue ↔ deg x = 0
  /-- The source of an edge into an appended vertex was appended before it. -/
  ordered : ∀ e ∈ E, e.2 ∈ order → e.1 ∈ order ∧ order.idxOf e.1 < order.idxOf e.2

theorem pending_eq_zero {E : List (α × α)} {order : List α} {x : α}
    (h : pending E order x = 0) {y : α} (hy : (y, x) ∈ E) : y ∈ order := by
  unfold pending at h
  rw [List.countP_eq_zero] at h
  have := h (y, x) hy
  simpa using this

/-- **One turn keeps the invariant.** The edges of the vertex that is appended are the
ones that stop counting, so each counter goes down by as many as lead to it. A vertex that
joins the queue has just reached zero, and it was not queued before since its counter was
positive then. -/
theorem Inv.step {V : List α} {E : List (α × α)} (hE : ∀ e ∈ E, e.2 ∈ V)
    {curr : α} {queue : List α} {deg : α → ℤ} {order : List α}
    (h : Inv V E (curr :: queue) deg order) :
    Inv V E (relax (successors E curr) (deg, queue)).2
      (relax (successors E curr) (deg, queue)).1 (order ++ [curr]) := by
  have hsplit : order ++ curr :: queue = (order ++ [curr]) ++ queue := by simp
  have hnodup := h.nodup
  rw [hsplit] at hnodup
  -- a vertex is appended once, so its edges are taken off once
  have hcurr : curr ∉ order := by
    have := (List.nodup_append.mp hnodup).1
    exact fun hm => (List.nodup_append.mp this).2.2 curr hm curr (by simp) rfl
  have hdeg : ∀ x ∈ V, (relax (successors E curr) (deg, queue)).1 x
      = pending E (order ++ [curr]) x := by
    intro x hx
    rw [relax_deg, h.deg_eq x hx, pending_append E order curr x hcurr]
    push_cast
    ring
  have hsucc : ∀ x ∈ successors E curr, x ∈ V := fun x hx =>
    hE (curr, x) (mem_successors.mp hx)
  obtain ⟨new, hq, hnewnd, hnew⟩ := relax_queue (successors E curr) deg queue (by
    intro x hx
    rw [h.deg_eq x (hsucc x hx), pending_append E order curr x hcurr]
    push_cast
    omega)
  have hnewiff : ∀ x ∈ V, x ∈ new ↔
      x ∈ successors E curr ∧ pending E (order ++ [curr]) x = 0 := by
    intro x hx
    rw [hnew, h.deg_eq x hx, pending_append E order curr x hcurr]
    push_cast
    constructor
    · rintro ⟨h1, h2⟩
      exact ⟨h1, by omega⟩
    · rintro ⟨h1, h2⟩
      exact ⟨h1, by omega⟩
  have hnewV : ∀ x ∈ new, x ∈ V := fun x hx => hsucc x ((hnew x).mp hx).1
  -- a newly queued vertex had an edge from `curr`, so its counter was not zero
  have hfresh : ∀ x ∈ new, x ∉ order ++ curr :: queue := by
    intro x hx hmem
    have hzero := (h.queued_iff x (hnewV x hx)).mp hmem
    rw [h.deg_eq x (hnewV x hx)] at hzero
    have := pending_eq_zero (by exact_mod_cast hzero)
      (mem_successors.mp ((hnewiff x (hnewV x hx)).mp hx).1)
    exact hcurr this
  rw [hq]
  refine ⟨?_, ?_, hdeg, ?_, ?_⟩
  · rw [← List.append_assoc]
    refine List.nodup_append.mpr ⟨hnodup, hnewnd, ?_⟩
    intro a ha b hb hab
    subst hab
    exact hfresh a hb (hsplit ▸ ha)
  · intro x hx
    rw [← List.append_assoc, ← hsplit] at hx
    rcases List.mem_append.mp hx with hx | hx
    · exact h.vertices x hx
    · exact hnewV x hx
  · intro x hx
    rw [hdeg x hx, ← List.append_assoc, ← hsplit, List.mem_append, hnewiff x hx,
      h.queued_iff x hx, h.deg_eq x hx]
    have hsum := pending_append E order curr x hcurr
    constructor
    · rintro (h0 | ⟨-, h0⟩)
      · have : pending E order x = 0 := by exact_mod_cast h0
        exact_mod_cast (by omega : pending E (order ++ [curr]) x = 0)
      · exact_mod_cast h0
    · intro h0
      have h0' : pending E (order ++ [curr]) x = 0 := by exact_mod_cast h0
      by_cases hc : x ∈ successors E curr
      · exact .inr ⟨hc, h0'⟩
      · rw [h0', List.count_eq_zero.mpr hc] at hsum
        exact .inl (by exact_mod_cast hsum)
  · intro e he hmem
    rcases List.mem_append.mp hmem with hmem | hmem
    · obtain ⟨h1, h2⟩ := h.ordered e he hmem
      refine ⟨List.mem_append_left _ h1, ?_⟩
      rw [List.idxOf_append_of_mem h1, List.idxOf_append_of_mem hmem]
      exact h2
    · have hec : e.2 = curr := List.mem_singleton.mp hmem
      have hcV : curr ∈ V := h.vertices curr (by simp)
      have hzero := (h.queued_iff curr hcV).mp (by simp)
      rw [h.deg_eq curr hcV] at hzero
      have hsrc : e.1 ∈ order := pending_eq_zero (x := curr) (by exact_mod_cast hzero)
        (by rw [← hec]; exact he)
      refine ⟨List.mem_append_left _ hsrc, ?_⟩
      rw [List.idxOf_append_of_mem hsrc, hec, List.idxOf_append_of_notMem hcurr]
      have := List.idxOf_lt_length_iff.mpr hsrc
      omega

/-- No more is queued than there are vertices. -/
theorem Inv.length_le {V : List α} {E : List (α × α)} {queue : List α} {deg : α → ℤ}
    {order : List α} (h : Inv V E queue deg order) : order.length + queue.length ≤ V.length := by
  rw [← List.length_append]
  exact (h.nodup.subperm h.vertices).length_le

/-- **The loop ends.** With a turn left for every vertex that is not appended
yet, the fuel is not what ends it: the queue is empty then, and the result is
that of the loop without a bound. -/
theorem Inv.loop {V : List α} {E : List (α × α)} (hE : ∀ e ∈ E, e.2 ∈ V) {fuel : ℕ}
    {queue : List α} {deg : α → ℤ} {order : List α} (h : Inv V E queue deg order)
    (hfuel : V.length ≤ fuel + order.length) :
    Loop (successors E) queue deg order (sort (successors E) fuel queue deg order) ∧
      ∃ deg', Inv V E [] deg' (sort (successors E) fuel queue deg order) := by
  induction fuel generalizing queue deg order with
  | zero =>
      -- every vertex is appended, so nothing is queued
      have hlen := h.length_le
      have hqueue : queue = [] := List.length_eq_zero_iff.mp (by omega)
      subst hqueue
      exact ⟨.done deg order, deg, h⟩
  | succ fuel ih =>
      cases queue with
      | nil => exact ⟨.done deg order, deg, h⟩
      | cons curr queue =>
          have hfuel' : V.length ≤ fuel + (order ++ [curr]).length := by
            rw [List.length_append, List.length_singleton]
            omega
          obtain ⟨hloop, hend⟩ := ih (h.step hE) hfuel'
          exact ⟨.turn curr queue deg order _ hloop, hend⟩

/-- The invariant holds when the loop ends, with some rest of the queue. -/
theorem Inv.sort {V : List α} {E : List (α × α)} (hE : ∀ e ∈ E, e.2 ∈ V) (fuel : ℕ)
    {queue : List α} {deg : α → ℤ} {order : List α} (h : Inv V E queue deg order) :
    ∃ queue' deg', Inv V E queue' deg' (sort (successors E) fuel queue deg order) := by
  induction fuel generalizing queue deg order with
  | zero => exact ⟨queue, deg, h⟩
  | succ fuel ih =>
      cases queue with
      | nil => exact ⟨[], deg, h⟩
      | cons curr queue => exact ih (h.step hE)

/-- The invariant holds at the start, with the vertices of in-degree zero in
the queue. -/
theorem Inv.init {V : List α} {E : List (α × α)} (hV : V.Nodup) (deg : α → ℤ)
    (hdeg : ∀ x ∈ V, deg x = pending E [] x) :
    Inv V E (V.filter fun x => decide (deg x = 0)) deg [] := by
  refine ⟨?_, ?_, hdeg, ?_, ?_⟩
  · simpa using hV.filter _
  · intro x hx
    rw [List.nil_append] at hx
    exact (List.mem_filter.mp hx).1
  · intro x hx
    simp [hx]
  · intro e _ h
    simp at h

/-! ## What the loop returns -/

section Result

variable {V : List α} {E : List (α × α)} {queue : List α} {deg : α → ℤ}

/-- Every edge into a returned vertex comes from an earlier one. -/
theorem sort_ordered (fuel : ℕ) (hE : ∀ e ∈ E, e.2 ∈ V) (h : Inv V E queue deg []) :
    ∀ e ∈ E, e.2 ∈ sort (successors E) fuel queue deg [] →
      e.1 ∈ sort (successors E) fuel queue deg [] ∧
      (sort (successors E) fuel queue deg []).idxOf e.1
        < (sort (successors E) fuel queue deg []).idxOf e.2 := by
  obtain ⟨_, _, hinv⟩ := h.sort hE fuel
  exact hinv.ordered

/-- A result as long as the vertex list is a permutation of it. -/
theorem sort_perm (fuel : ℕ) (hE : ∀ e ∈ E, e.2 ∈ V) (h : Inv V E queue deg [])
    (hlen : (sort (successors E) fuel queue deg []).length = V.length) :
    (sort (successors E) fuel queue deg []).Perm V := by
  obtain ⟨queue', _, hinv⟩ := h.sort hE fuel
  have hnodup := (List.nodup_append.mp hinv.nodup).1
  have hsub : sort (successors E) fuel queue deg [] ⊆ V := fun x hx =>
    hinv.vertices x (List.mem_append_left _ hx)
  exact (hnodup.subperm hsub).perm_of_length_le (le_of_eq hlen.symm)

/-- A vertex that is not appended waits for one that is not appended. -/
theorem Inv.exists_pending {order : List α} (h : Inv V E [] deg order) {x : α} (hx : x ∈ V)
    (hnot : x ∉ order) : ∃ y, (y, x) ∈ E ∧ y ∉ order := by
  have hdeg : deg x ≠ 0 := by
    intro hzero
    have hmem := (h.queued_iff x hx).mpr hzero
    rw [List.append_nil] at hmem
    exact hnot hmem
  rw [h.deg_eq x hx] at hdeg
  have hpos : 0 < pending E order x := by omega
  obtain ⟨e, he, hpending⟩ := List.countP_pos_iff.mp hpos
  rw [decide_eq_true_eq] at hpending
  refine ⟨e.1, ?_, hpending.2⟩
  rw [← hpending.1]
  exact he

/-- **Kahn's test.** The result has all vertices exactly if the graph is acyclic. If the
result has all vertices, their positions rank the edges. If it has not, then those left
out all have a counter above zero, that is, a predecessor among those left out, and a
finite set in which everyone has a predecessor contains a cycle. -/
theorem sort_length_iff (hV : V.Nodup) (hE : ∀ e ∈ E, e.1 ∈ V ∧ e.2 ∈ V)
    (h : Inv V E queue deg []) :
    (sort (successors E) V.length queue deg []).length = V.length ↔ EdgeGraph.Acyclic E := by
  have hE₂ : ∀ e ∈ E, e.2 ∈ V := fun e he => (hE e he).2
  constructor
  · intro hlen
    have hperm := sort_perm V.length hE₂ h hlen
    -- the position in the result ranks the edges
    apply EdgeGraph.acyclic_of_rank (sort (successors E) V.length queue deg []).idxOf
    intro e he
    exact (sort_ordered V.length hE₂ h e he (hperm.mem_iff.mpr (hE e he).2)).2
  · intro hacyclic
    obtain ⟨-, deg', hend⟩ := h.loop hE₂ (show V.length ≤ V.length + [].length from le_rfl)
    generalize sort (successors E) V.length queue deg [] = order at hend ⊢
    -- what is left would have a vertex that waits for nothing that is left
    have hleft : V.filter (fun x => decide (x ∉ order)) = [] := by
      by_contra hne
      obtain ⟨x, hx, hsource⟩ := hacyclic.exists_source hne
      obtain ⟨hxV, hnot⟩ := List.mem_filter.mp hx
      obtain ⟨y, hedge, hy⟩ := hend.exists_pending hxV (of_decide_eq_true hnot)
      apply hsource y _ hedge
      exact List.mem_filter.mpr ⟨(hE (y, x) hedge).1, decide_eq_true hy⟩
    have hall : V ⊆ order := by
      intro x hx
      by_contra hnot
      have hmem : x ∈ V.filter (fun x => decide (x ∉ order)) :=
        List.mem_filter.mpr ⟨hx, decide_eq_true hnot⟩
      rw [hleft] at hmem
      cases hmem
    have hle := hend.length_le
    have hge := (hV.subperm hall).length_le
    rw [List.length_nil] at hle
    omega

end Result

end Kahn
