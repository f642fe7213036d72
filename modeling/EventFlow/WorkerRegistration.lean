/-
`WorkerService.register_worker`: the row of a worker in the table `workers`.

The method looks for a row of the given name and, if an owner is given, of that
owner; it writes to the row it finds and inserts one if it finds none. The name
is unique by itself, so that a name that was registered first without an owner,
or by another one, is not found and cannot be inserted.
[`register_worker_upserts_iff`] says which sequences of registrations go well.

The id of a new row is one that is not taken, owners are keys that exist, and
texts are without NUL, which no column holds. A session that fails is rolled back.
-/
import EventFlow.Editor
import EventFlow.Library.Selection

set_option autoImplicit false

namespace EventFlow

/-- `WorkerStatus`. -/
inductive WorkerStatus where
  | STARTING
  | IDLE
  | BUSY
  | STOPPING
  | OFFLINE
deriving DecidableEq

/-- A row of `workers`. -/
structure WorkerRow where
  id : ℕ
  worker_name : String
  status : WorkerStatus := .OFFLINE
  last_heartbeat_at : Option ℕ := none
  current_job_id : Option String := none
  worker_metadata : Option JsonObject := none
  owner_api_key_id : Option ℕ := none

/-- The arguments of `register_worker`, and the time of the call. -/
structure Registration where
  worker_name : String
  hostname : String
  owner_api_key_id : Option ℕ := none
  now : ℕ := 0

/-- The size of the column `worker_name`. -/
def worker_name_size : ℕ := 255

/-- An id that no row has. -/
def new_worker_id (workers : List WorkerRow) : ℕ :=
  (workers.map WorkerRow.id).foldr max 0 + 1

/-- The `WHERE` of the lookup. -/
def Registration.selects (r : Registration) (worker : WorkerRow) : Bool :=
  decide (worker.worker_name = r.worker_name) &&
    r.owner_api_key_id.all fun key => decide (worker.owner_api_key_id = some key)

/-- The row of a new worker. -/
def Registration.new_row (r : Registration) (id : ℕ) : WorkerRow where
  id := id
  worker_name := r.worker_name
  status := .STARTING
  last_heartbeat_at := some r.now
  worker_metadata := some [("hostname", .str r.hostname)]
  owner_api_key_id := r.owner_api_key_id

/-- The row of a worker that is there. -/
def Registration.write (r : Registration) (worker : WorkerRow) : WorkerRow :=
  { worker with
    status := .STARTING
    last_heartbeat_at := some r.now
    current_job_id := none
    worker_metadata := some
      (JsonObject.assign (worker.worker_metadata.getD []) "hostname" (.str r.hostname)) }

/-- `INSERT INTO workers`: a name has a size and is there once. -/
def insert_worker (workers : List WorkerRow) (worker : WorkerRow) :
    Except ServiceError WorkerRow × List WorkerRow :=
  if worker_name_size < worker.worker_name.length then (.error .data_error, workers)
  else if worker.worker_name ∈ workers.map WorkerRow.worker_name then
    (.error .integrity_error, workers)
  else (.ok worker, workers ++ [worker])

/-- `WorkerService.register_worker`. -/
def register_worker (workers : List WorkerRow) (r : Registration) :
    Except ServiceError WorkerRow × List WorkerRow :=
  match workers.filter r.selects with
  | [] => insert_worker workers (r.new_row (new_worker_id workers))
  | [worker] =>
    (.ok (r.write worker),
      workers.map fun other => if other.id = worker.id then r.write worker else other)
  | _ => (.error (.py .multiple_results_found), workers)

/-- The table after a sequence of calls, and what they returned. -/
def register_all (calls : List Registration) :
    List WorkerRow × List (Except ServiceError WorkerRow) :=
  calls.foldl
    (fun state r =>
      ((register_worker state.1 r).2, state.2 ++ [(register_worker state.1 r).1]))
    ([], [])

/-! ## What a call can do -/

/-- The ids and the names of the table are unique. -/
structure WorkersInv (workers : List WorkerRow) : Prop where
  ids : (workers.map WorkerRow.id).Nodup
  names : (workers.map WorkerRow.worker_name).Nodup

theorem new_worker_id_not_mem (workers : List WorkerRow) :
    new_worker_id workers ∉ workers.map WorkerRow.id := by
  have hle : ∀ (ids : List ℕ), ∀ id ∈ ids, id ≤ ids.foldr max 0 := by
    intro ids
    induction ids with
    | nil =>
        intro id hid
        cases hid
    | cons a ids ih =>
        intro id hid
        rw [List.foldr_cons]
        rcases List.mem_cons.mp hid with rfl | hid
        · exact le_max_left _ _
        · exact (ih id hid).trans (le_max_right _ _)
  intro hmem
  have hbound := hle _ _ hmem
  unfold new_worker_id at hbound
  omega

/-- The ways a call goes. -/
inductive Registered (workers : List WorkerRow) (r : Registration) :
    Except ServiceError WorkerRow × List WorkerRow → Prop
  /-- The name is new. -/
  | inserted (hnew : ∀ w ∈ workers, w.worker_name ≠ r.worker_name)
      (hsize : r.worker_name.length ≤ worker_name_size) :
      Registered workers r (.ok (r.new_row (new_worker_id workers)),
        workers ++ [r.new_row (new_worker_id workers)])
  /-- There is a row, and the caller may be its owner. -/
  | written (worker : WorkerRow) (hmem : worker ∈ workers)
      (hname : worker.worker_name = r.worker_name)
      (howner : r.owner_api_key_id = none ∨ worker.owner_api_key_id = r.owner_api_key_id) :
      Registered workers r (.ok (r.write worker),
        workers.map fun other => if other.id = worker.id then r.write worker else other)
  /-- The name is new and does not fit. -/
  | refused_size (err : ServiceError) (hnew : ∀ w ∈ workers, w.worker_name ≠ r.worker_name)
      (hsize : worker_name_size < r.worker_name.length) :
      Registered workers r (.error err, workers)
  /-- The name is there with another owner. -/
  | refused_owner (err : ServiceError) (worker : WorkerRow) (hmem : worker ∈ workers)
      (hname : worker.worker_name = r.worker_name) (hgiven : r.owner_api_key_id ≠ none)
      (howner : worker.owner_api_key_id ≠ r.owner_api_key_id) :
      Registered workers r (.error err, workers)

section Calls

variable {workers : List WorkerRow} {r : Registration}

theorem Registration.selects_iff {worker : WorkerRow} :
    r.selects worker = true ↔ worker.worker_name = r.worker_name ∧
      (r.owner_api_key_id = none ∨ worker.owner_api_key_id = r.owner_api_key_id) := by
  unfold selects
  cases r.owner_api_key_id with
  | none => simp
  | some key => simp

/-- Rows of one name are one row. -/
theorem WorkersInv.eq_of_name (h : WorkersInv workers) {a b : WorkerRow} (ha : a ∈ workers)
    (hb : b ∈ workers) (hname : a.worker_name = b.worker_name) : a = b :=
  Selection.eq_of_key h.names ha hb hname

/-- **What a call does.** The case that matters is the last: the row of the name is there
and is not selected, because it has another owner or none. Then the `INSERT` meets the
unique name and raises. -/
theorem register_worker_cases (h : WorkersInv workers) :
    Registered workers r (register_worker workers r) := by
  have hselected : ∀ w ∈ workers.filter r.selects, w ∈ workers ∧
      w.worker_name = r.worker_name ∧
      (r.owner_api_key_id = none ∨ w.owner_api_key_id = r.owner_api_key_id) := by
    intro w hw
    obtain ⟨hmem, hsel⟩ := List.mem_filter.mp hw
    exact ⟨hmem, Registration.selects_iff.mp hsel⟩
  unfold register_worker
  cases hfilter : workers.filter r.selects with
  | nil =>
      dsimp only
      unfold insert_worker
      by_cases hrow : ∃ w ∈ workers, w.worker_name = r.worker_name
      · obtain ⟨w, hmem, hname⟩ := hrow
        -- the row is not selected, so an owner is given and it is not the row's
        have hnot : ¬ r.selects w = true := by
          intro hsel
          have hw := List.mem_filter.mpr ⟨hmem, hsel⟩
          rw [hfilter] at hw
          cases hw
        rw [Registration.selects_iff, not_and] at hnot
        obtain ⟨hgiven, howner⟩ := not_or.mp (hnot hname)
        split
        · exact .refused_owner _ w hmem hname hgiven howner
        · have htaken : (r.new_row (new_worker_id workers)).worker_name
              ∈ workers.map WorkerRow.worker_name := List.mem_map.mpr ⟨w, hmem, hname⟩
          rw [if_pos htaken]
          exact .refused_owner _ w hmem hname hgiven howner
      · have hnew : ∀ w ∈ workers, w.worker_name ≠ r.worker_name :=
          fun w hmem hname => hrow ⟨w, hmem, hname⟩
        split
        · rename_i hsize
          exact .refused_size _ hnew hsize
        · rename_i hsize
          rw [if_neg]
          · exact .inserted hnew (Nat.not_lt.mp hsize)
          · intro hname
            obtain ⟨w, hmem, hname⟩ := List.mem_map.mp hname
            exact hnew w hmem hname
  | cons worker rest =>
      rw [hfilter] at hselected
      obtain ⟨hmem, hname, howner⟩ := hselected worker List.mem_cons_self
      cases rest with
      | nil => exact .written worker hmem hname howner
      | cons other rest =>
          -- the name is unique
          obtain ⟨hmem', hname', -⟩ :=
            hselected other (List.mem_cons_of_mem worker List.mem_cons_self)
          have hnodup := (List.Nodup.of_map _ h.ids).filter r.selects
          rw [hfilter, h.eq_of_name hmem hmem' (hname.trans hname'.symm)] at hnodup
          exact absurd List.mem_cons_self (List.nodup_cons.mp hnodup).1

/-- Writing to a row keeps the ids, the names and the owners. -/
theorem write_map_key {β : Type} (key : WorkerRow → β) (worker : WorkerRow)
    (hkey : key (r.write worker) = key worker) (h : WorkersInv workers)
    (hmem : worker ∈ workers) :
    (workers.map fun other => if other.id = worker.id then r.write worker else other).map key
      = workers.map key := by
  apply Selection.map_key_map
  intro other hother
  split
  · rename_i hid
    rw [hkey, Selection.eq_of_key h.ids hother hmem hid]
  · rfl

/-- A row that is written to, or left. -/
theorem mem_write_map {worker row : WorkerRow}
    (h : row ∈ workers.map fun other => if other.id = worker.id then r.write worker else other) :
    row = r.write worker ∨ row ∈ workers := by
  obtain ⟨other, hother, rfl⟩ := List.mem_map.mp h
  split
  · exact Or.inl rfl
  · exact Or.inr hother

end Calls

/-! ## Sequences of calls -/

/-- The owner of the first registration under a name. -/
def first_owner (calls : List Registration) (name : String) : Option (Option ℕ) :=
  (calls.find? fun c => decide (c.worker_name = name)).map Registration.owner_api_key_id

/-- A registration that goes well: the name fits its column, and if an owner is
given, it is the one of the first registration under the name. -/
def Registration.Fits (calls : List Registration) (c : Registration) : Prop :=
  c.worker_name.length ≤ worker_name_size ∧
    (c.owner_api_key_id = none ∨ first_owner calls c.worker_name = some c.owner_api_key_id)

/-- What an upsert is: every call returns a row of its name that is starting and
has no job, and the calls of one name return one row. -/
structure Upserts (calls : List Registration)
    (results : List (Except ServiceError WorkerRow)) : Prop where
  returns : ∀ (i : ℕ) (c : Registration), calls[i]? = some c →
    ∃ worker : WorkerRow, results[i]? = some (.ok worker) ∧
    worker.worker_name = c.worker_name ∧ worker.status = .STARTING ∧
    worker.current_job_id = none
  same_row : ∀ (i j : ℕ) (a b : WorkerRow), results[i]? = some (.ok a) →
    results[j]? = some (.ok b) → a.worker_name = b.worker_name → a.id = b.id

theorem register_all_concat (calls : List Registration) (r : Registration) :
    register_all (calls ++ [r])
      = ((register_worker (register_all calls).1 r).2,
          (register_all calls).2 ++ [(register_worker (register_all calls).1 r).1]) := by
  unfold register_all
  rw [List.foldl_append]
  rfl

section FirstOwner

variable {calls : List Registration} {r c : Registration} {name : String}

/-- A name that has been registered keeps its first owner. -/
theorem first_owner_concat {owner : Option ℕ} (h : first_owner calls name = some owner) :
    first_owner (calls ++ [r]) name = some owner := by
  obtain ⟨c, hfind, hc⟩ := Option.map_eq_some_iff.mp h
  unfold first_owner
  rw [List.find?_append, hfind, Option.some_or, Option.map_some, hc]

/-- The first owner of a new name is that of its registration. -/
theorem first_owner_new (h : ∀ c ∈ calls, c.worker_name ≠ r.worker_name) :
    first_owner (calls ++ [r]) r.worker_name = some r.owner_api_key_id := by
  have hnone : calls.find? (fun c => decide (c.worker_name = r.worker_name)) = none := by
    rw [List.find?_eq_none]
    intro c hc
    rw [decide_eq_true_eq]
    exact h c hc
  unfold first_owner
  rw [List.find?_append, hnone, Option.none_or, List.find?_singleton, if_pos (by simp)]
  rfl

theorem exists_first_owner (h : c ∈ calls) :
    ∃ owner, first_owner calls c.worker_name = some owner := by
  unfold first_owner
  rw [← Option.isSome_iff_exists, Option.isSome_map, List.find?_isSome]
  exact ⟨c, h, by simp⟩

/-- A later call does not change how an earlier one goes. -/
theorem Registration.fits_concat (h : c ∈ calls) :
    c.Fits (calls ++ [r]) ↔ c.Fits calls := by
  obtain ⟨owner, howner⟩ := exists_first_owner h
  unfold Fits
  rw [howner, first_owner_concat howner]

end FirstOwner

/-- What is known after a sequence of calls. -/
structure RegisteredInv (calls : List Registration) (workers : List WorkerRow)
    (results : List (Except ServiceError WorkerRow)) : Prop where
  inv : WorkersInv workers
  length : results.length = calls.length
  /-- A row is of the owner that registered its name first. -/
  owner : ∀ w ∈ workers, w.worker_name.length ≤ worker_name_size ∧
    first_owner calls w.worker_name = some w.owner_api_key_id
  /-- A name that fits has a row from its first registration on. -/
  present : ∀ c ∈ calls, c.worker_name.length ≤ worker_name_size →
    ∃ w ∈ workers, w.worker_name = c.worker_name
  /-- What was returned is a row of the table, as far as name and id go. -/
  row : ∀ (i : ℕ) (a : WorkerRow), results[i]? = some (.ok a) →
    ∃ w ∈ workers, w.worker_name = a.worker_name ∧ w.id = a.id
  answer : ∀ (i : ℕ) (c : Registration) (a : WorkerRow), calls[i]? = some c →
    results[i]? = some (.ok a) →
    a.worker_name = c.worker_name ∧ a.status = .STARTING ∧ a.current_job_id = none
  ok_iff : ∀ (i : ℕ) (c : Registration), calls[i]? = some c →
    ((∃ a : WorkerRow, results[i]? = some (.ok a)) ↔ c.Fits calls)

section Runs

variable {calls : List Registration} {workers workers' : List WorkerRow}
  {results : List (Except ServiceError WorkerRow)} {r : Registration}
  {result : Except ServiceError WorkerRow}

/-- An entry of a list with one more at its end. -/
theorem getElem?_concat_cases {α : Type*} {l : List α} {x y : α} {i : ℕ}
    (h : (l ++ [x])[i]? = some y) : i < l.length ∧ l[i]? = some y ∨ i = l.length ∧ x = y := by
  rw [List.getElem?_append] at h
  split at h
  · rename_i hlt
    exact Or.inl ⟨hlt, h⟩
  · rw [List.getElem?_singleton] at h
    split at h
    · rename_i hlt hzero
      exact Or.inr ⟨by omega, Option.some.inj h⟩
    · cases h

/-- One more call: what has to be known of it is what it does to the table, what it
returns, and that it returns a row exactly if it fits. The index of the new call is the
length of the list, so what was known of the others is known by their old indices. -/
theorem RegisteredInv.concat (h : RegisteredInv calls workers results)
    (hinv : WorkersInv workers')
    (howner : ∀ w ∈ workers', w.worker_name.length ≤ worker_name_size ∧
      first_owner (calls ++ [r]) w.worker_name = some w.owner_api_key_id)
    (hkeep : ∀ w ∈ workers, ∃ w' ∈ workers', w'.worker_name = w.worker_name ∧ w'.id = w.id)
    (hpresent : r.worker_name.length ≤ worker_name_size →
      ∃ w ∈ workers', w.worker_name = r.worker_name)
    (hanswer : ∀ a, result = .ok a → a.worker_name = r.worker_name ∧ a.status = .STARTING ∧
      a.current_job_id = none ∧ ∃ w ∈ workers', w.worker_name = a.worker_name ∧ w.id = a.id)
    (hok : (∃ a, result = .ok a) ↔ r.Fits (calls ++ [r])) :
    RegisteredInv (calls ++ [r]) workers' (results ++ [result]) := by
  have hlength := h.length
  constructor
  · exact hinv
  · rw [List.length_append, List.length_append, h.length]
    rfl
  · exact howner
  · intro c hc hsize
    rcases List.mem_append.mp hc with hc | hc
    · obtain ⟨w, hw, hname⟩ := h.present c hc hsize
      obtain ⟨w', hw', hname', -⟩ := hkeep w hw
      exact ⟨w', hw', hname'.trans hname⟩
    · rw [List.mem_singleton.mp hc] at hsize ⊢
      exact hpresent hsize
  · intro i a hi
    rcases getElem?_concat_cases hi with ⟨-, hi⟩ | ⟨-, hresult⟩
    · obtain ⟨w, hw, hname, hid⟩ := h.row i a hi
      obtain ⟨w', hw', hname', hid'⟩ := hkeep w hw
      exact ⟨w', hw', hname'.trans hname, hid'.trans hid⟩
    · exact (hanswer a hresult).2.2.2
  · intro i c a hc hi
    rcases getElem?_concat_cases hc with ⟨hlt, hc⟩ | ⟨hlast, rfl⟩
    · -- an earlier call has its earlier answer, and the last one the new answer
      rcases getElem?_concat_cases hi with ⟨-, hi⟩ | ⟨heq, -⟩
      · exact h.answer i c a hc hi
      · omega
    · rcases getElem?_concat_cases hi with ⟨hlt, -⟩ | ⟨-, hresult⟩
      · omega
      · obtain ⟨hname, hstatus, hjob, -⟩ := hanswer a hresult
        exact ⟨hname, hstatus, hjob⟩
  · intro i c hc
    rcases getElem?_concat_cases hc with ⟨hlt, hc⟩ | ⟨rfl, rfl⟩
    · rw [List.getElem?_append_left (by omega), h.ok_iff i c hc,
        Registration.fits_concat (List.mem_of_getElem? hc)]
    · rw [← h.length, List.getElem?_concat_length, ← hok]
      simp

/-- The first owner of a name stays. -/
theorem RegisteredInv.owner_concat (h : RegisteredInv calls workers results) :
    ∀ w ∈ workers, w.worker_name.length ≤ worker_name_size ∧
      first_owner (calls ++ [r]) w.worker_name = some w.owner_api_key_id := by
  intro w hw
  exact ⟨(h.owner w hw).1, first_owner_concat (h.owner w hw).2⟩

/-- A call that inserts a row. -/
theorem RegisteredInv.inserted (h : RegisteredInv calls workers results)
    (hnew : ∀ w ∈ workers, w.worker_name ≠ r.worker_name)
    (hsize : r.worker_name.length ≤ worker_name_size) :
    RegisteredInv (calls ++ [r]) (workers ++ [r.new_row (new_worker_id workers)])
      (results ++ [.ok (r.new_row (new_worker_id workers))]) := by
  have hfirst : first_owner (calls ++ [r]) r.worker_name = some r.owner_api_key_id := by
    apply first_owner_new
    intro c hc hname
    obtain ⟨w, hw, hw'⟩ := h.present c hc (hname ▸ hsize)
    exact hnew w hw (hw'.trans hname)
  refine h.concat ⟨?_, ?_⟩ ?_ ?_ ?_ ?_ ?_
  · exact Selection.nodup_key_concat h.inv.ids (new_worker_id_not_mem workers)
  · apply Selection.nodup_key_concat h.inv.names
    intro hmem
    obtain ⟨w, hw, hname⟩ := List.mem_map.mp hmem
    exact hnew w hw hname
  · intro w hw
    rcases List.mem_append.mp hw with hw | hw
    · exact h.owner_concat w hw
    · rw [List.mem_singleton.mp hw]
      exact ⟨hsize, hfirst⟩
  · intro w hw
    exact ⟨w, List.mem_append_left _ hw, rfl, rfl⟩
  · intro _
    exact ⟨_, List.mem_append_right _ List.mem_cons_self, rfl⟩
  · intro a ha
    cases ha
    exact ⟨rfl, rfl, rfl, _, List.mem_append_right _ List.mem_cons_self, rfl, rfl⟩
  · exact iff_of_true ⟨_, rfl⟩ ⟨hsize, Or.inr hfirst⟩

/-- A call that writes a row. Only the row of that name is written, its id and its name
stay, and it keeps its owner. -/
theorem RegisteredInv.written (h : RegisteredInv calls workers results) {worker : WorkerRow}
    (hmem : worker ∈ workers) (hname : worker.worker_name = r.worker_name)
    (hkey : r.owner_api_key_id = none ∨ worker.owner_api_key_id = r.owner_api_key_id) :
    RegisteredInv (calls ++ [r])
      (workers.map fun other => if other.id = worker.id then r.write worker else other)
      (results ++ [.ok (r.write worker)]) := by
  have hids := write_map_key (r := r) WorkerRow.id worker rfl h.inv hmem
  have hnames := write_map_key (r := r) WorkerRow.worker_name worker rfl h.inv hmem
  have hwritten : r.write worker ∈ workers.map fun other =>
      if other.id = worker.id then r.write worker else other :=
    List.mem_map.mpr ⟨worker, hmem, if_pos rfl⟩
  refine h.concat ⟨hids ▸ h.inv.ids, hnames ▸ h.inv.names⟩ ?_ ?_ ?_ ?_ ?_
  · intro w hw
    rcases mem_write_map hw with rfl | hw
    · exact h.owner_concat worker hmem
    · exact h.owner_concat w hw
  · intro w hw
    by_cases hid : w.id = worker.id
    · rw [Selection.eq_of_key h.inv.ids hw hmem hid]
      exact ⟨_, hwritten, rfl, rfl⟩
    · exact ⟨w, List.mem_map.mpr ⟨w, hw, if_neg hid⟩, rfl, rfl⟩
  · intro _
    exact ⟨_, hwritten, hname⟩
  · intro a ha
    cases ha
    exact ⟨hname, rfl, rfl, _, hwritten, rfl, rfl⟩
  · refine iff_of_true ⟨_, rfl⟩ ⟨hname ▸ (h.owner worker hmem).1, ?_⟩
    rcases hkey with hnone | hkey
    · exact Or.inl hnone
    · right
      rw [← hname, (h.owner_concat worker hmem).2, hkey]

/-- A call that is refused. -/
theorem RegisteredInv.refused (h : RegisteredInv calls workers results) (err : ServiceError)
    (hpresent : r.worker_name.length ≤ worker_name_size →
      ∃ w ∈ workers, w.worker_name = r.worker_name)
    (hfits : ¬ r.Fits (calls ++ [r])) :
    RegisteredInv (calls ++ [r]) workers (results ++ [.error err]) := by
  refine h.concat h.inv h.owner_concat (fun w hw => ⟨w, hw, rfl, rfl⟩) hpresent ?_ ?_
  · intro a ha
    cases ha
  · refine iff_of_false ?_ hfits
    rintro ⟨a, ha⟩
    cases ha

/-- **A call keeps what is known**, however it goes. The four ways are those of
[`Registered`]. A call that is refused leaves the table as it was, and does not fit: its
name is too long for the column, or the row of that name was registered for another owner
or for none. -/
theorem RegisteredInv.call (h : RegisteredInv calls workers results) :
    RegisteredInv (calls ++ [r]) (register_worker workers r).2
      (results ++ [(register_worker workers r).1]) := by
  have hcases := register_worker_cases (r := r) h.inv
  generalize register_worker workers r = outcome at hcases ⊢
  cases hcases with
  | inserted hnew hsize => exact h.inserted hnew hsize
  | written worker hmem hname hkey => exact h.written hmem hname hkey
  | refused_size err hnew hsize =>
      apply h.refused
      · intro hle
        omega
      · intro hfits
        have hle := hfits.1
        omega
  | refused_owner err worker hmem hname hgiven hother =>
      apply h.refused
      · intro _
        exact ⟨worker, hmem, hname⟩
      · rintro ⟨-, hnone | hfirst⟩
        · exact hgiven hnone
        · rw [← hname, (h.owner_concat worker hmem).2, Option.some.injEq] at hfirst
          exact hother hfirst

/-- Every sequence of calls. -/
theorem registeredInv_register_all (calls : List Registration) :
    RegisteredInv calls (register_all calls).1 (register_all calls).2 := by
  induction calls using List.reverseRecOn with
  | nil =>
      refine ⟨⟨List.nodup_nil, List.nodup_nil⟩, rfl, ?_, ?_, ?_, ?_, ?_⟩
      · intro w hw
        cases hw
      · intro c hc
        cases hc
      · intro i a hi
        cases hi
      · intro i c a hi
        cases hi
      · intro i c hi
        cases hi
  | append_singleton calls r ih =>
      rw [register_all_concat]
      exact ih.call

end Runs

/-- **When `register_worker` is an upsert**: the names fit their column, and a
registration with an owner is of the owner that registered the name first.
[`RegisteredInv`] follows a list of calls from the left and says of each whether it has
returned a row: exactly if it fits. Later calls do not change this, for the owner of a
name is decided by the call that registers it first. -/
theorem register_worker_upserts_iff (calls : List Registration) :
    Upserts calls (register_all calls).2 ↔ ∀ c ∈ calls, c.Fits calls := by
  have hinv := registeredInv_register_all calls
  constructor
  · intro h c hc
    obtain ⟨i, hi⟩ := List.mem_iff_getElem?.mp hc
    obtain ⟨a, ha, -⟩ := h.returns i c hi
    exact (hinv.ok_iff i c hi).mp ⟨a, ha⟩
  · intro hfits
    constructor
    · intro i c hi
      obtain ⟨a, ha⟩ := (hinv.ok_iff i c hi).mpr (hfits c (List.mem_of_getElem? hi))
      exact ⟨a, ha, hinv.answer i c a hi ha⟩
    · intro i j a b ha hb hname
      obtain ⟨w, hw, hwname, hwid⟩ := hinv.row i a ha
      obtain ⟨w', hw', hwname', hwid'⟩ := hinv.row j b hb
      rw [← hwid, ← hwid', hinv.inv.eq_of_name hw hw'
        (hwname.trans (hname.trans hwname'.symm))]

/-- A name is registered by the API process, and then by a worker that a key has
spawned. -/
def shared_name : List Registration :=
  [{ worker_name := "worker-1", hostname := "host" },
    { worker_name := "worker-1", hostname := "host", owner_api_key_id := some 7 }]

/-- The second call raises. -/
theorem register_worker_raises :
    (register_all shared_name).2[1]? = some (.error .integrity_error) ∧
      ¬ Upserts shared_name (register_all shared_name).2 := by
  have hsecond : (register_all shared_name).2[1]? = some (.error .integrity_error) := rfl
  refine ⟨hsecond, ?_⟩
  intro h
  obtain ⟨worker, hreturned, -⟩ := h.returns 1 _ rfl
  rw [hsecond] at hreturned
  cases hreturned

end EventFlow
