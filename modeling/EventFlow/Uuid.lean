/-
`uuid.UUID` of the standard library: 128-bit numbers, `str` and the constructor
from a string.

`str` writes 32 hexadecimal digits in five groups. The constructor is lenient: it
takes off `urn:` and `uuid:`, braces and all dashes, and reads what is left if it
has 32 characters. It reads what `str` has written ([`UUID.of_str_str`]).
-/
import EventFlow.PyStr

set_option autoImplicit false

namespace EventFlow

open PyStr

/-- `uuid.UUID`. -/
structure UUID where
  int : ℕ
  int_lt : int < 2 ^ 128

/-- `"%032x" % int`. -/
def uuid_hex (int : ℕ) : List Char :=
  List.replicate (32 - (Nat.toDigits 16 int).length) '0' ++ Nat.toDigits 16 int

/-- `str(uuid)` of the UUID with this number. -/
def uuid_str (int : ℕ) : String :=
  let hex := uuid_hex int
  String.ofList (hex.take 8 ++ '-' :: (hex.drop 8).take 4 ++ '-' :: (hex.drop 12).take 4 ++
    '-' :: (hex.drop 16).take 4 ++ '-' :: hex.drop 20)

/-- `str(uuid)`. -/
def UUID.str (uuid : UUID) : String := uuid_str uuid.int

/-- `uuid.UUID(text)`, `none` for a `ValueError`. Where the dashes are does not matter. -/
def UUID.of_str (u : Unicode) (text : String) : Option UUID :=
  let hex := remove "-" (strip (fun c => c == '{' || c == '}')
    (remove "uuid:" (remove "urn:" text.toList)))
  if hex.length ≠ 32 then none
  else
    match PyStr.int u 16 hex with
    | none => none
    | some n => if h : 0 ≤ n ∧ n.toNat < 2 ^ 128 then some ⟨n.toNat, h.2⟩ else none

/-! ## The digits -/

theorem length_uuid_hex (uuid : UUID) : (uuid_hex uuid.int).length = 32 := by
  have hle : (Nat.toDigits 16 uuid.int).length ≤ 32 := by
    rw [Nat.length_toDigits_le_iff (by decide) (by decide)]
    exact uuid.int_lt
  unfold uuid_hex
  rw [List.length_append, List.length_replicate]
  omega

theorem mem_uuid_hex {int : ℕ} {c : Char} (h : c ∈ uuid_hex int) : ∃ d < 16, c = d.digitChar := by
  rcases List.mem_append.mp h with hzero | hdigit
  · exact ⟨0, by decide, (List.mem_replicate.mp hzero).2⟩
  · exact Numerals.mem_toDigits (by decide) hdigit

/-- What is no digit is not among the digits. -/
theorem not_mem_uuid_hex {int : ℕ} {c : Char} (hc : ∀ d < 16, d.digitChar ≠ c) :
    c ∉ uuid_hex int := by
  intro h
  obtain ⟨d, hd, rfl⟩ := mem_uuid_hex h
  exact hc d hd rfl

/-- The characters of `str(uuid)`. -/
theorem mem_uuid_str {int : ℕ} {c : Char} (h : c ∈ (uuid_str int).toList) :
    c = '-' ∨ c ∈ uuid_hex int := by
  unfold uuid_str at h
  simp only [String.toList_ofList, List.mem_append, List.mem_cons] at h
  rcases h with ((((h | h | h) | h | h) | h | h) | h | h)
  · exact Or.inr (List.mem_of_mem_take h)
  · exact Or.inl h
  · exact Or.inr (List.mem_of_mem_drop (List.mem_of_mem_take h))
  · exact Or.inl h
  · exact Or.inr (List.mem_of_mem_drop (List.mem_of_mem_take h))
  · exact Or.inl h
  · exact Or.inr (List.mem_of_mem_drop (List.mem_of_mem_take h))
  · exact Or.inl h
  · exact Or.inr (List.mem_of_mem_drop h)

theorem not_mem_uuid_str {int : ℕ} {c : Char} (hdash : c ≠ '-')
    (hc : ∀ d < 16, d.digitChar ≠ c) : c ∉ (uuid_str int).toList := by
  intro h
  exact not_mem_uuid_hex hc ((mem_uuid_str h).resolve_left hdash)

theorem length_uuid_str (uuid : UUID) : uuid.str.toList.length = 36 := by
  unfold UUID.str uuid_str
  have hlen := length_uuid_hex uuid
  simp only [String.toList_ofList, List.length_append, List.length_cons, List.length_take,
    List.length_drop, hlen]
  decide

/-! ## Reading -/

/-- The removal of one character. -/
theorem remove_dash (text : List Char) : remove "-" text = text.filter (· ≠ '-') := by
  unfold remove
  induction text with
  | nil => rfl
  | cons c rest ih =>
      rw [show "-".toList = ['-'] from rfl] at ih ⊢
      rw [remove_from, List.isPrefixOf]
      by_cases hc : c = '-'
      · subst hc
        rw [List.filter_cons_of_neg (by decide), ← ih]
        rfl
      · rw [beq_eq_false_iff_ne.mpr (Ne.symm hc), Bool.false_and, if_neg Bool.false_ne_true,
          List.filter_cons_of_pos (by simpa using hc), ih]

/-- Without the dashes `str(uuid)` is its digits. -/
theorem filter_uuid_str (int : ℕ) :
    (uuid_str int).toList.filter (· ≠ '-') = uuid_hex int := by
  have hdigits : ∀ part : List Char, (∀ c ∈ part, c ∈ uuid_hex int) →
      part.filter (· ≠ '-') = part := by
    intro part hpart
    rw [List.filter_eq_self]
    intro c hc
    rw [decide_eq_true_eq]
    rintro rfl
    exact not_mem_uuid_hex (by decide) (hpart _ hc)
  have hdash : ∀ rest : List Char, ('-' :: rest).filter (· ≠ '-') = rest.filter (· ≠ '-') :=
    fun rest => List.filter_cons_of_neg (by decide)
  unfold uuid_str
  dsimp only
  rw [String.toList_ofList]
  simp only [List.filter_append, hdash]
  rw [hdigits _ fun c => List.mem_of_mem_take,
    hdigits _ fun c hc => List.mem_of_mem_drop (List.mem_of_mem_take hc),
    hdigits _ fun c hc => List.mem_of_mem_drop (List.mem_of_mem_take hc),
    hdigits _ fun c hc => List.mem_of_mem_drop (List.mem_of_mem_take hc),
    hdigits _ fun c hc => List.mem_of_mem_drop hc]
  generalize uuid_hex int = hex
  have hsplit : ∀ k n, (hex.drop k).take n ++ hex.drop (k + n) = hex.drop k := by
    intro k n
    rw [← List.drop_drop, List.take_append_drop]
  rw [List.append_assoc, List.append_assoc, List.append_assoc, hsplit 16 4, hsplit 12 4,
    hsplit 8 4, List.take_append_drop]

/-- **What `str` writes is read back.** Nothing that the constructor takes off occurs in
the text but the dashes, which `str` has put there; and 32 digits are left. -/
theorem UUID.of_str_str (u : Unicode) (uuid : UUID) : UUID.of_str u uuid.str = some uuid := by
  have hurn : remove "urn:" uuid.str.toList = uuid.str.toList :=
    remove_eq_self rfl (not_mem_uuid_str (by decide) (by decide))
  have huuid : remove "uuid:" uuid.str.toList = uuid.str.toList :=
    remove_eq_self rfl (not_mem_uuid_str (by decide) (by decide))
  have hbraces : strip (fun c => c == '{' || c == '}') uuid.str.toList = uuid.str.toList := by
    apply strip_eq_self
    intro c hc
    rw [Bool.or_eq_false_iff, beq_eq_false_iff_ne, beq_eq_false_iff_ne]
    constructor
    · rintro rfl
      exact not_mem_uuid_str (by decide) (by decide) hc
    · rintro rfl
      exact not_mem_uuid_str (by decide) (by decide) hc
  have hhex : remove "-" uuid.str.toList = uuid_hex uuid.int := by
    rw [remove_dash]
    exact filter_uuid_str uuid.int
  have hint : PyStr.int u 16 (uuid_hex uuid.int) = some (uuid.int : ℤ) :=
    int_padded u 16 (by decide) (by decide) _ _
  unfold UUID.of_str
  dsimp only
  rw [hurn, huuid, hbraces, hhex, if_neg (not_not.mpr (length_uuid_hex uuid)), hint]
  exact dif_pos ⟨Int.natCast_nonneg _, uuid.int_lt⟩

/-- A UUID is known from its string. -/
theorem UUID.str_injective : Function.Injective UUID.str := by
  intro a b h
  have hread := congrArg (UUID.of_str Unicode.ascii) h
  rw [of_str_str, of_str_str] at hread
  exact Option.some.inj hread

end EventFlow
