/-
Matching by backtracking, for patterns that are sequences of items.

An item offers the lengths it can take of a text, the preferred one first: a
greedy repetition the longest, a lazy one the shortest, an alternation the first
word that stands there. `match?` tries the lengths of the first item in that
order and keeps the first with which the rest of the pattern matches the rest of
the text. It returns the parts that are captured.

Where the rest of a pattern cannot begin inside of what a repetition covers, the
repetition takes all it can ([`match?_greedy_run`], [`match?_greedy_apart`]). An
alternation with its longer words first takes the longest word that stands there,
if the rest matches ([`match?_words_longest`]). Blanks, a lazy repetition, blanks
and the end of the text take a text without its blanks ([`match?_trimmed`]), and of
blanks alone the last one ([`match?_trimmed_blanks`]).
-/
import Mathlib.Data.List.DropRight
import Mathlib.Data.List.TakeWhile

set_option autoImplicit false

namespace Backtracking

variable {α : Type*} [DecidableEq α]

/-- What one place of a pattern takes. -/
inductive Item (α : Type*) where
  /-- `p*` and `p+`. -/
  | greedy (least : ℕ) (p : α → Bool)
  /-- `p*?` and `p+?`. -/
  | lazy (least : ℕ) (p : α → Bool)
  /-- `(v|w|…)` -/
  | words (ws : List (List α))
  /-- `$`: the end of the text, or of the last line that has a newline. -/
  | finish (newline : α)

/-- The lengths an item can take, the preferred one first. -/
def Item.lengths : Item α → List α → List ℕ
  | .greedy least p, text =>
    (List.range' least ((text.takeWhile p).length + 1 - least)).reverse
  | .lazy least p, text => List.range' least ((text.takeWhile p).length + 1 - least)
  | .words ws, text => (ws.filter fun w => w.isPrefixOf text).map List.length
  | .finish newline, text => if text = [] ∨ text = [newline] then [0] else []

/-- A place of a pattern, and whether it is in a group. -/
structure Part (α : Type*) where
  item : Item α
  captured : Bool := false

/-- The groups after a part has taken `taken`. -/
def Part.keep (part : Part α) (taken : List α) (groups : List (List α)) : List (List α) :=
  if part.captured then taken :: groups else groups

omit [DecidableEq α] in
theorem Part.keep_uncaptured (item : Item α) (taken : List α) :
    Part.keep ⟨item, false⟩ taken = id := rfl

/-- The groups of the first match of a pattern at the beginning of a text. -/
def match? : List (Part α) → List α → Option (List (List α))
  | [], _ => some []
  | part :: parts, text =>
    (part.item.lengths text).findSome? fun n =>
      (match? parts (text.drop n)).map fun groups => part.keep (text.take n) groups

section Rules

variable {part : Part α} {parts : List (Part α)} {text : List α} {groups : List (List α)}

@[simp] theorem match?_nil : match? [] text = some [] := rfl

/-- A pattern fails when its rest fails after every length of its first item. -/
theorem match?_cons_none
    (h : ∀ n ∈ part.item.lengths text, match? parts (text.drop n) = none) :
    match? (part :: parts) text = none := by
  rw [match?, List.findSome?_eq_none_iff]
  intro n hn
  rw [h n hn, Option.map_none]

/-- The first length after which the rest matches. -/
theorem match?_cons_some {before after : List ℕ} {n : ℕ}
    (hlengths : part.item.lengths text = before ++ n :: after)
    (hbefore : ∀ m ∈ before, match? parts (text.drop m) = none)
    (hmatch : match? parts (text.drop n) = some groups) :
    match? (part :: parts) text = some (part.keep (text.take n) groups) := by
  rw [match?, List.findSome?_eq_some_iff]
  refine ⟨before, n, after, hlengths, ?_, ?_⟩
  · rw [hmatch, Option.map_some]
  · intro m hm
    rw [hbefore m hm, Option.map_none]

/-- As many groups as parts that are captured. -/
theorem length_of_match? (h : match? parts text = some groups) :
    groups.length = (parts.filter Part.captured).length := by
  induction parts generalizing text groups with
  | nil =>
      cases h
      rfl
  | cons part parts ih =>
      rw [match?] at h
      obtain ⟨n, -, hn⟩ := List.exists_of_findSome?_eq_some h
      rw [Option.map_eq_some_iff] at hn
      obtain ⟨groups', hgroups, rfl⟩ := hn
      unfold Part.keep
      cases hcaptured : part.captured with
      | true =>
          rw [if_pos rfl, List.filter_cons_of_pos hcaptured, List.length_cons, List.length_cons,
            ih hgroups]
      | false =>
          rw [if_neg Bool.false_ne_true, List.filter_cons_of_neg (by rw [hcaptured]; decide),
            ih hgroups]

/-- The lengths of a repetition, around one of them. -/
theorem lengths_split {least n longest : ℕ} (hleast : least ≤ n) (hlongest : n ≤ longest) :
    List.range' least (longest + 1 - least)
      = List.range' least (n - least) ++ n :: List.range' (n + 1) (longest - n) := by
  have hcount : longest + 1 - least = (n - least) + (1 + (longest - n)) := by omega
  have hstart : least + (n - least) = n := by omega
  rw [hcount, ← List.range'_append_1, hstart, Nat.add_comm 1, List.range'_succ]

theorem mem_lengths {least n longest : ℕ} :
    n ∈ List.range' least (longest + 1 - least) ↔ least ≤ n ∧ n ≤ longest := by
  rw [List.mem_range'_1]
  omega

section Repetitions

variable {least n : ℕ} {p : α → Bool} {captured : Bool}

/-- A greedy repetition takes `n` where nothing longer leads to a match. -/
theorem match?_greedy (hleast : least ≤ n) (hrun : n ≤ (text.takeWhile p).length)
    (hlonger : ∀ m, n < m → m ≤ (text.takeWhile p).length → match? parts (text.drop m) = none)
    (hmatch : match? parts (text.drop n) = some groups) :
    match? (⟨.greedy least p, captured⟩ :: parts) text
      = some (Part.keep ⟨.greedy least p, captured⟩ (text.take n) groups) := by
  have hlengths : (Item.greedy least p).lengths text
      = (List.range' (n + 1) ((text.takeWhile p).length - n)).reverse ++
        n :: (List.range' least (n - least)).reverse := by
    rw [Item.lengths, lengths_split hleast hrun, List.reverse_append, List.reverse_cons,
      List.append_assoc, List.singleton_append]
  apply match?_cons_some hlengths _ hmatch
  intro m hm
  rw [List.mem_reverse, List.mem_range'_1] at hm
  exact hlonger m (by omega) (by omega)

/-- A lazy repetition takes `n` where nothing shorter leads to a match. -/
theorem match?_lazy (hleast : least ≤ n) (hrun : n ≤ (text.takeWhile p).length)
    (hshorter : ∀ m, least ≤ m → m < n → match? parts (text.drop m) = none)
    (hmatch : match? parts (text.drop n) = some groups) :
    match? (⟨.lazy least p, captured⟩ :: parts) text
      = some (Part.keep ⟨.lazy least p, captured⟩ (text.take n) groups) := by
  have hlengths : (Item.lazy least p).lengths text = List.range' least (n - least) ++
      n :: List.range' (n + 1) ((text.takeWhile p).length - n) := lengths_split hleast hrun
  apply match?_cons_some hlengths _ hmatch
  intro m hm
  rw [List.mem_range'_1] at hm
  exact hshorter m (by omega) (by omega)

theorem match?_greedy_none
    (h : ∀ m, least ≤ m → m ≤ (text.takeWhile p).length → match? parts (text.drop m) = none) :
    match? (⟨.greedy least p, captured⟩ :: parts) text = none := by
  apply match?_cons_none
  intro m hm
  rw [Item.lengths, List.mem_reverse, mem_lengths] at hm
  exact h m hm.1 hm.2

omit [DecidableEq α] in
/-- A run of `p` that ends where the next character is none. -/
theorem takeWhile_run {run rest : List α} (hrun : ∀ c ∈ run, p c = true)
    (hrest : ∀ c ∈ rest.head?, p c = false) : (run ++ rest).takeWhile p = run := by
  rw [List.takeWhile_append_of_pos hrun]
  cases rest with
  | nil => rw [List.takeWhile_nil, List.append_nil]
  | cons c rest =>
      rw [List.takeWhile_cons_of_neg, List.append_nil]
      rw [hrest c rfl]
      exact Bool.false_ne_true

omit [DecidableEq α] in
/-- Every text begins with a run that is as long as it gets. -/
theorem exists_run (p : α → Bool) (text : List α) :
    ∃ run rest, text = run ++ rest ∧ (∀ c ∈ run, p c = true) ∧ ∀ c ∈ rest.head?, p c = false := by
  refine ⟨text.takeWhile p, text.dropWhile p, List.takeWhile_append_dropWhile.symm,
    fun c hc => List.mem_takeWhile_imp hc, ?_⟩
  intro c hc
  have hhead := List.head?_dropWhile_not p text
  rw [Option.mem_def.mp hc] at hhead
  simpa using hhead

/-- **A greedy repetition takes all of a run** where the rest of the pattern does not
match from inside of it. The lengths below that of the run are tried as well, and
`hinside` is that none of them leads to a match; so it does not matter how many there are.
-/
theorem match?_greedy_run {run rest : List α} (hrun : ∀ c ∈ run, p c = true)
    (hrest : ∀ c ∈ rest.head?, p c = false)
    (hinside : ∀ m < run.length, match? parts (run.drop m ++ rest) = none) :
    match? (⟨.greedy least p, captured⟩ :: parts) (run ++ rest)
      = if least ≤ run.length then
          (match? parts rest).map (Part.keep ⟨.greedy least p, captured⟩ run)
        else none := by
  have htake := takeWhile_run hrun hrest
  have hdrop : ∀ m, m < run.length → match? parts ((run ++ rest).drop m) = none := by
    intro m hm
    rw [List.drop_append_of_le_length (Nat.le_of_lt hm)]
    exact hinside m hm
  have hnone : (least ≤ run.length → match? parts rest = none) →
      match? (⟨.greedy least p, captured⟩ :: parts) (run ++ rest) = none := by
    intro hend
    apply match?_greedy_none
    intro m hleast hm
    rw [htake] at hm
    rcases Nat.lt_or_eq_of_le hm with hlt | heq
    · exact hdrop m hlt
    · rw [heq, List.drop_left]
      exact hend (heq ▸ hleast)
  split
  · rename_i hleast
    cases hmatch : match? parts rest with
    | none => exact hnone fun _ => hmatch
    | some groups =>
        rw [match?_greedy hleast (by rw [htake]) _ (by rw [List.drop_left, hmatch]),
          List.take_left]
        · rfl
        · intro m hlt hle
          rw [htake] at hle
          omega
  · rename_i hleast
    exact hnone fun hle => absurd hle hleast

/-- The usual reason: the rest of the pattern does not begin with a character of
the run. -/
theorem match?_greedy_apart {run rest : List α} (hrun : ∀ c ∈ run, p c = true)
    (hrest : ∀ c ∈ rest.head?, p c = false)
    (hapart : ∀ c tail, p c = true → match? parts (c :: tail) = none) :
    match? (⟨.greedy least p, captured⟩ :: parts) (run ++ rest)
      = if least ≤ run.length then
          (match? parts rest).map (Part.keep ⟨.greedy least p, captured⟩ run)
        else none := by
  apply match?_greedy_run hrun hrest
  intro m hm
  rw [List.drop_eq_getElem_cons hm, List.cons_append]
  exact hapart _ _ (hrun _ (List.getElem_mem hm))

end Repetitions

/-! ### Alternatives -/

section Words

variable {ws : List (List α)} {captured : Bool}

/-- **Longer words first**: then the longest word that stands at the beginning of a text
is taken, as long as the rest matches. The words before it in the list are longer or as
long, and none of them stands there. -/
theorem match?_words_longest {w rest : List α}
    (hsorted : ws.Pairwise fun v w => w.length ≤ v.length ∧ v ≠ w) (hw : w ∈ ws)
    (hlongest : ∀ v ∈ ws, v <+: w ++ rest → v.length ≤ w.length)
    (hmatch : match? parts rest = some groups) :
    match? (⟨.words ws, captured⟩ :: parts) (w ++ rest)
      = some (Part.keep ⟨.words ws, captured⟩ w groups) := by
  obtain ⟨before, after, rfl⟩ := List.append_of_mem hw
  have hnone : (before.filter fun v => v.isPrefixOf (w ++ rest)) = [] := by
    rw [List.filter_eq_nil_iff]
    intro v hv hstands
    rw [ List.isPrefixOf_iff_prefix] at hstands
    obtain ⟨hle, hne⟩ := (List.pairwise_append.mp hsorted).2.2 v hv w List.mem_cons_self
    have hge := hlongest v (List.mem_append_left _ hv) hstands
    -- of the same length, so the same word
    have hstart : v <+: w := List.prefix_of_prefix_length_le hstands (List.prefix_append w rest) hge
    exact hne (hstart.eq_of_length (Nat.le_antisymm hge hle))
  have hlengths : (Item.words (before ++ w :: after)).lengths (w ++ rest) = [] ++
      w.length :: (after.filter fun v => v.isPrefixOf (w ++ rest)).map List.length := by
    rw [Item.lengths, List.filter_append, hnone, List.filter_cons_of_pos]
    · rfl
    · exact List.isPrefixOf_iff_prefix.mpr (List.prefix_append w rest)
  rw [match?_cons_some hlengths _ (by rw [List.drop_left, hmatch]), List.take_left]
  intro m hm
  cases hm

/-- The words are tried one after the other. -/
theorem match?_words_isSome {w rest : List α} (hw : w ∈ ws)
    (hmatch : (match? parts rest).isSome = true) :
    (match? (⟨.words ws, captured⟩ :: parts) (w ++ rest)).isSome = true := by
  rw [match?, List.findSome?_isSome_iff]
  refine ⟨w.length, ?_, ?_⟩
  · rw [Item.lengths]
    apply List.mem_map_of_mem
    rw [List.mem_filter, List.isPrefixOf_iff_prefix]
    exact ⟨hw, List.prefix_append w rest⟩
  · rw [List.drop_left, Option.isSome_map, hmatch]

end Words

theorem match?_finish {newline : α} {captured : Bool} (hline : newline ∉ text) :
    match? [⟨.finish newline, captured⟩] text
      = if text = [] then some (Part.keep ⟨.finish newline, captured⟩ [] []) else none := by
  have hne : text ≠ [newline] := by
    rintro rfl
    exact hline List.mem_cons_self
  rw [match?, Item.lengths]
  split
  · rename_i hempty
    rw [if_pos (hempty.resolve_right hne)]
    rfl
  · rename_i hempty
    rw [if_neg fun h => hempty (Or.inl h)]
    rfl

/-! ### A text without its blanks -/

section Trimmed

variable {blank q : α → Bool} {newline : α}

/-- `p*(q+?)p*$` -/
def trimmed (blank q : α → Bool) (newline : α) : List (Part α) :=
  [⟨.greedy 0 blank, false⟩, ⟨.lazy 1 q, true⟩, ⟨.greedy 0 blank, false⟩, ⟨.finish newline, false⟩]

/-- A text that begins and ends with a character that is no blank. -/
structure Solid (blank : α → Bool) (text : List α) : Prop where
  ne_nil : text ≠ []
  head : ∀ c ∈ text.head?, blank c = false
  last : ∀ c ∈ text.getLast?, blank c = false

omit [DecidableEq α] in
/-- A text that is not all blanks, in its blanks: what is in the middle begins and ends
with a character that is no blank. -/
theorem exists_solid (h : ∃ c ∈ text, blank c = false) :
    ∃ front core back, text = front ++ (core ++ back) ∧ Solid blank core ∧
      (∀ c ∈ front, blank c = true) ∧ ∀ c ∈ back, blank c = true := by
  have hink : ∃ c ∈ text.dropWhile blank, blank c = false := by
    obtain ⟨c, hc, hblank⟩ := h
    rw [← List.takeWhile_append_dropWhile (p := blank) (l := text)] at hc
    rcases List.mem_append.mp hc with hc | hc
    · rw [List.mem_takeWhile_imp hc] at hblank
      exact absurd hblank Bool.noConfusion
    · exact ⟨c, hc, hblank⟩
  have hne : (text.dropWhile blank).rdropWhile blank ≠ [] := by
    rw [Ne, List.rdropWhile_eq_nil_iff]
    intro hall
    obtain ⟨c, hc, hblank⟩ := hink
    rw [hall c hc] at hblank
    exact absurd hblank Bool.noConfusion
  have hsplit := List.rdropWhile_append_rtakeWhile (p := blank) (l := text.dropWhile blank)
  refine ⟨text.takeWhile blank, _, (text.dropWhile blank).rtakeWhile blank, ?_, ⟨hne, ?_, ?_⟩,
    fun _ => List.mem_takeWhile_imp, fun _ => List.mem_rtakeWhile_imp⟩
  · rw [hsplit, List.takeWhile_append_dropWhile]
  · intro c hc
    rw [← List.head?_append_of_ne_nil _ hne, hsplit] at hc
    have hhead := List.head?_dropWhile_not blank text
    rw [Option.mem_def.mp hc] at hhead
    simpa using hhead
  · intro c hc
    rw [List.getLast?_eq_some_getLast hne, Option.mem_some_iff] at hc
    have hlast := List.rdropWhile_last_not blank _ hne
    rw [hc] at hlast
    simpa using hlast

/-- Nothing but blanks up to the end. -/
theorem match?_blanks_finish (hline : newline ∉ text) :
    match? [⟨.greedy 0 blank, false⟩, ⟨.finish newline, false⟩] text
      = if text.all blank then some [] else none := by
  obtain ⟨run, rest, rfl, hrun, hrest⟩ := exists_run blank text
  have hinside : ∀ m < run.length,
      match? [⟨.finish newline, false⟩] (run.drop m ++ rest) = none := by
    intro m hm
    rw [match?_finish, if_neg]
    · rw [List.append_eq_nil_iff, List.drop_eq_nil_iff]
      omega
    · intro h
      rcases List.mem_append.mp h with h | h
      · exact hline (List.mem_append_left _ (List.mem_of_mem_drop h))
      · exact hline (List.mem_append_right _ h)
  have hline' : newline ∉ rest := fun h => hline (List.mem_append_right _ h)
  rw [match?_greedy_run hrun hrest hinside, if_pos (Nat.zero_le _), match?_finish hline']
  cases rest with
  | nil =>
      rw [List.append_nil, if_pos rfl, if_pos (List.all_eq_true.mpr hrun)]
      rfl
  | cons c rest =>
      -- the character that ends the run is no blank
      rw [if_neg (List.cons_ne_nil c rest), if_neg]
      · rfl
      · intro hall
        have hc := List.all_eq_true.mp hall c (List.mem_append_right _ List.mem_cons_self)
        rw [hrest c rfl] at hc
        exact Bool.false_ne_true hc

/-- The lazy repetition ends with the last character that is no blank. -/
theorem match?_lazy_blanks {core back : List α} (hcore : Solid blank core)
    (hback : ∀ c ∈ back, blank c = true) (hq : ∀ c ∈ core ++ back, q c = true)
    (hline : newline ∉ core ++ back) :
    match? [⟨.lazy 1 q, true⟩, ⟨.greedy 0 blank, false⟩, ⟨.finish newline, false⟩] (core ++ back)
      = some [core] := by
  have hpos : 1 ≤ core.length := List.length_pos_iff.mpr hcore.ne_nil
  have hrun : core.length ≤ ((core ++ back).takeWhile q).length := by
    rw [List.takeWhile_eq_self_iff.mpr hq, List.length_append]
    omega
  have hline' : ∀ m, newline ∉ (core ++ back).drop m := fun m h => hline (List.mem_of_mem_drop h)
  have hend : match? [⟨.greedy 0 blank, false⟩, ⟨.finish newline, false⟩]
      ((core ++ back).drop core.length) = some [] := by
    rw [match?_blanks_finish (hline' core.length), List.drop_left, if_pos]
    exact List.all_eq_true.mpr hback
  have hshorter : ∀ m, 1 ≤ m → m < core.length →
      match? [⟨.greedy 0 blank, false⟩, ⟨.finish newline, false⟩] ((core ++ back).drop m)
        = none := by
    intro m _ hm
    rw [match?_blanks_finish (hline' m), if_neg]
    -- the last character of the core is among those that are left
    intro hall
    have hmem : core.getLast hcore.ne_nil ∈ (core ++ back).drop m := by
      rw [List.drop_append_of_le_length (Nat.le_of_lt hm)]
      apply List.mem_append_left
      have hne : core.drop m ≠ [] := by
        rw [Ne, List.drop_eq_nil_iff]
        omega
      rw [← List.getLast_drop hne]
      exact List.getLast_mem hne
    have hblank := List.all_eq_true.mp hall _ hmem
    rw [hcore.last _ (List.getLast?_eq_some_getLast hcore.ne_nil)] at hblank
    exact Bool.false_ne_true hblank
  rw [match?_lazy hpos hrun hshorter hend, List.take_left]
  rfl

/-- **A text in blanks** is taken without them. The lazy repetition is extended character
by character until the rest is all blanks, and this is so at the end of the core and not
before. -/
theorem match?_trimmed {front core back : List α} (hcore : Solid blank core)
    (hfront : ∀ c ∈ front, blank c = true) (hback : ∀ c ∈ back, blank c = true)
    (hq : ∀ c ∈ core ++ back, q c = true) (hline : newline ∉ core ++ back) :
    match? (trimmed blank q newline) (front ++ (core ++ back)) = some [core] := by
  have hhead : ∀ c ∈ (core ++ back).head?, blank c = false := by
    rw [List.head?_append_of_ne_nil _ hcore.ne_nil]
    exact hcore.head
  have htake := takeWhile_run hfront hhead
  unfold trimmed
  rw [match?_greedy (Nat.zero_le front.length) (by rw [htake]) _
    (by rw [List.drop_left, match?_lazy_blanks hcore hback hq hline])]
  · rfl
  · intro m hlt hle
    rw [htake] at hle
    omega

/-- **Of blanks alone** the last one is taken. The lazy repetition must take one character
at least, so the blanks before it give one back. -/
theorem match?_trimmed_blanks {front : List α} {c : α} (hfront : ∀ b ∈ front, blank b = true)
    (hc : blank c = true) (hq : q c = true) :
    match? (trimmed blank q newline) (front ++ [c]) = some [[c]] := by
  have hall : ∀ b ∈ front ++ [c], blank b = true := by
    intro b hb
    rcases List.mem_append.mp hb with hb | hb
    · exact hfront b hb
    · rw [List.mem_singleton.mp hb, hc]
  have htake : (front ++ [c]).takeWhile blank = front ++ [c] := List.takeWhile_eq_self_iff.mpr hall
  have hlast : match? [⟨.lazy 1 q, true⟩, ⟨.greedy 0 blank, false⟩, ⟨.finish newline, false⟩] [c]
      = some [[c]] := by
    have hrun : 1 ≤ ([c].takeWhile q).length := by
      rw [List.takeWhile_cons_of_pos hq, List.length_cons]
      omega
    rw [match?_lazy (le_refl 1) hrun _ rfl]
    · rfl
    · intro m hle hlt
      omega
  unfold trimmed
  rw [match?_greedy (Nat.zero_le front.length) _ _ (by rw [List.drop_left, hlast])]
  · rfl
  · rw [htake, List.length_append]
    omega
  · -- one more, and nothing is left for the lazy repetition
    intro m hlt hle
    rw [htake, List.length_append, List.length_singleton] at hle
    have hm : m = (front ++ [c]).length := by
      rw [List.length_append, List.length_singleton]
      omega
    rw [hm, List.drop_length]
    rfl

end Trimmed

end Rules

end Backtracking
