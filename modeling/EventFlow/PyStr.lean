/-
What the code uses of Python's `str`, on lists of characters: the blanks, `strip`,
the removal of a word, and `int`.

Which characters are blank is a short list. Which are letters or decimal digits
is a table of the Unicode database, and is a parameter (`Unicode`): what is known
of it are the ASCII characters, and that no letter is a blank.

Integers are written and read without a limit on their length. The interpreter
has one, of 4300 digits in its default setting; what the backend converts are
INTEGER columns and the 32 digits of a UUID.
-/
import EventFlow.Library.Numerals
import Mathlib.Data.List.DropRight

set_option autoImplicit false

namespace EventFlow

namespace PyStr

/-- `str.isspace` of a character, which is also what `\s` matches. -/
def isspace (c : Char) : Bool :=
  let n := c.toNat
  decide (9 ≤ n ∧ n ≤ 13 ∨ 28 ≤ n ∧ n ≤ 32 ∨ n = 133 ∨ n = 160 ∨ n = 5760 ∨
    8192 ≤ n ∧ n ≤ 8202 ∨ n = 8232 ∨ n = 8233 ∨ n = 8239 ∨ n = 8287 ∨ n = 12288)

/-- The tables of the Unicode database. Only what is needed of them: ASCII is as one knows
it, and a letter or digit is never a blank. -/
structure Unicode where
  isalnum : Char → Bool
  /-- The value of a decimal digit of any script. -/
  decimal : Char → Option ℕ
  ascii_isalnum : ∀ c : Char, c.toNat < 128 → isalnum c = c.isAlphanum
  ascii_decimal : ∀ c : Char, c.toNat < 128 →
    decimal c = if c.isDigit then some (c.toNat - '0'.toNat) else none
  isalnum_not_isspace : ∀ c, isalnum c = true → isspace c = false

theorem isAlphanum_range {c : Char} (h : c.isAlphanum = true) :
    48 ≤ c.toNat ∧ c.toNat ≤ 122 := by
  have hbounds {first last : Char} (hfirst : first.val ≤ c.val) (hlast : c.val ≤ last.val)
      (hlow : 48 ≤ first.toNat) (hhigh : last.toNat ≤ 122) : 48 ≤ c.toNat ∧ c.toNat ≤ 122 :=
    ⟨Nat.le_trans hlow (UInt32.le_iff_toNat_le.mp hfirst),
      Nat.le_trans (UInt32.le_iff_toNat_le.mp hlast) hhigh⟩
  rcases Bool.or_eq_true_iff.mp h with halpha | hdigit
  · rcases Bool.or_eq_true_iff.mp halpha with hupper | hlower
    · obtain ⟨hfirst, hlast⟩ := of_decide_eq_true hupper
      exact hbounds hfirst hlast (by decide) (by decide)
    · obtain ⟨hfirst, hlast⟩ := Bool.and_eq_true_iff.mp hlower
      exact hbounds (of_decide_eq_true hfirst) (of_decide_eq_true hlast) (by decide) (by decide)
  · obtain ⟨hfirst, hlast⟩ := Bool.and_eq_true_iff.mp hdigit
    exact hbounds (of_decide_eq_true hfirst) (of_decide_eq_true hlast) (by decide) (by decide)

theorem isspace_false_of_printable {c : Char} (h : 33 ≤ c.toNat ∧ c.toNat < 128) :
    isspace c = false := by
  unfold isspace
  rw [decide_eq_false_iff_not]
  omega

/-- The tables cut down to ASCII. -/
def Unicode.ascii : Unicode where
  isalnum := Char.isAlphanum
  decimal := fun c => if c.isDigit then some (c.toNat - '0'.toNat) else none
  ascii_isalnum := fun _ _ => rfl
  ascii_decimal := fun _ _ => rfl
  isalnum_not_isspace := by
    intro c hc
    have hrange := isAlphanum_range hc
    exact isspace_false_of_printable (by omega)

/-- What `\w` matches. -/
def Unicode.word (u : Unicode) (c : Char) : Bool := u.isalnum c || c == '_'

/-- `strip`: the characters of the set are taken off both ends. -/
def strip (set : Char → Bool) (text : List Char) : List Char :=
  (text.dropWhile set).rdropWhile set

/-- `replace(word, "")`; `skip` characters are left of an occurrence. -/
def remove_from (word : List Char) : ℕ → List Char → List Char
  | _, [] => []
  | skip + 1, _ :: rest => remove_from word skip rest
  | 0, c :: rest =>
    if word.isPrefixOf (c :: rest) then remove_from word (word.length - 1) rest
    else c :: remove_from word 0 rest

/-- `replace(word, "")`. Occurrences are removed from the left and do not overlap. -/
def remove (word : String) (text : List Char) : List Char := remove_from word.toList 0 text

/-- What a character is worth as a digit: the letters count from ten. -/
def digit (u : Unicode) (c : Char) : Option ℕ :=
  match u.decimal c with
  | some d => some d
  | none =>
    if 'a' ≤ c ∧ c ≤ 'z' then some (c.toNat - 'a'.toNat + 10)
    else if 'A' ≤ c ∧ c ≤ 'Z' then some (c.toNat - 'A'.toNat + 10)
    else none

/-- `0x` before the digits, which base 16 allows, and the underscore that may
follow it. -/
def drop_base_mark (base : ℕ) (text : List Char) : List Char :=
  if base = 16 ∧ (text.take 2 = ['0', 'x'] ∨ text.take 2 = ['0', 'X']) then
    if (text.drop 2).head? = some '_' then text.drop 3 else text.drop 2
  else text

/-- The digits of `int(text, base)`. -/
def unsigned (u : Unicode) (base : ℕ) (text : List Char) : Option ℕ :=
  Numerals.read (digit u) base 0 false (drop_base_mark base text)

/-- `int(text, base)`, `none` for a `ValueError`. Blanks around it are taken off, then a
sign; in base 16 a `0x` may follow. -/
def int (u : Unicode) (base : ℕ) (text : List Char) : Option ℤ :=
  let body := strip isspace text
  if body.head? = some '-' then (unsigned u base body.tail).map fun n => -(n : ℤ)
  else if body.head? = some '+' then (unsigned u base body.tail).map fun n => (n : ℤ)
  else (unsigned u base body).map fun n => (n : ℤ)

/-! ## ASCII characters -/

theorem Unicode.word_ascii (u : Unicode) {c : Char} (h : c.toNat < 128) :
    u.word c = (c.isAlphanum || c == '_') := by
  unfold word
  rw [u.ascii_isalnum c h]

theorem Unicode.word_not_isspace (u : Unicode) {c : Char} (h : u.word c = true) :
    isspace c = false := by
  rcases Bool.or_eq_true_iff.mp h with halnum | hunder
  · exact u.isalnum_not_isspace c halnum
  · rw [beq_iff_eq.mp hunder]
    decide

/-! ## Numbers -/

/-- The digits that `str` and `%x` write. -/
theorem digitChar_toNat : ∀ d < 16, d.digitChar.toNat = if d < 10 then 48 + d else 87 + d := by
  decide

/-- They are ASCII, and neither blanks nor signs. -/
theorem digitChar_printable {d : ℕ} (h : d < 16) :
    48 ≤ d.digitChar.toNat ∧ d.digitChar.toNat ≤ 102 := by
  rw [digitChar_toNat d h]
  split <;> omega

theorem digitChar_not_isspace {d : ℕ} (h : d < 16) : isspace d.digitChar = false := by
  have hrange := digitChar_printable h
  exact isspace_false_of_printable (by omega)

theorem digit_digitChar (u : Unicode) : ∀ d < 16, digit u d.digitChar = some d := by
  intro d hd
  have hrange := digitChar_printable hd
  unfold digit
  rw [u.ascii_decimal _ (by omega)]
  revert d
  decide

theorem readsDigits (u : Unicode) {base : ℕ} (hlt : 1 < base) (hle : base ≤ 16) :
    Numerals.ReadsDigits (digit u) base where
  one_lt := hlt
  digit_eq := fun d hd => digit_digitChar u d (by omega)
  ne_underscore := by
    intro d hd
    have hne : ∀ d < 16, d.digitChar ≠ '_' := by decide
    exact hne d (by omega)

/-- Nothing is stripped where neither end is of the set. -/
theorem strip_of_ends {set : Char → Bool} {text : List Char}
    (hhead : ∀ c ∈ text.head?, set c = false) (hlast : ∀ c ∈ text.getLast?, set c = false) :
    strip set text = text := by
  have hfront : text.dropWhile set = text := by
    cases text with
    | nil => rfl
    | cons c rest => rw [List.dropWhile_cons, hhead c rfl, if_neg Bool.false_ne_true]
  unfold strip
  rw [hfront, List.rdropWhile_eq_self_iff]
  intro hne
  rw [hlast _ (List.getLast?_eq_some_getLast hne)]
  exact Bool.false_ne_true

theorem strip_eq_self {set : Char → Bool} {text : List Char} (h : ∀ c ∈ text, set c = false) :
    strip set text = text :=
  strip_of_ends (fun c hc => h c (List.mem_of_mem_head? hc))
    fun c hc => h c (List.mem_of_mem_getLast? hc)

/-- The characters of `sep.join(texts)`. -/
theorem mem_join {c : Char} {sep : List Char} {texts : List (List Char)}
    (h : c ∈ List.intercalate sep texts) : c ∈ sep ∨ ∃ t ∈ texts, c ∈ t := by
  induction texts with
  | nil => cases h
  | cons t texts ih =>
      cases texts with
      | nil =>
          rw [List.intercalate_singleton] at h
          exact Or.inr ⟨t, List.mem_cons_self, h⟩
      | cons t' texts =>
          rw [List.intercalate_cons_cons, List.append_assoc] at h
          rcases List.mem_append.mp h with h | h
          · exact Or.inr ⟨t, List.mem_cons_self, h⟩
          · rcases List.mem_append.mp h with h | h
            · exact Or.inl h
            · rcases ih h with h | ⟨text, htext, hc⟩
              · exact Or.inl h
              · exact Or.inr ⟨text, List.mem_cons_of_mem t htext, hc⟩

/-- Nothing is removed where the word does not begin. -/
theorem remove_eq_self {word : String} {first : Char} {rest text : List Char}
    (hword : word.toList = first :: rest) (h : first ∉ text) : remove word text = text := by
  unfold remove
  rw [hword]
  induction text with
  | nil => rfl
  | cons c text ih =>
      have hne : first ≠ c := fun heq => h (heq ▸ List.mem_cons_self)
      rw [remove_from, List.isPrefixOf, beq_eq_false_iff_ne.mpr hne, Bool.false_and,
        if_neg Bool.false_ne_true, ih (fun hmem => h (List.mem_cons_of_mem c hmem))]

/-- **`int` reads the digits of a number**, with zeros before them. `int` takes off
blanks, a sign and the mark of a base, and none of these occurs here. -/
theorem int_padded (u : Unicode) (base : ℕ) (hlt : 1 < base) (hle : base ≤ 16) (k n : ℕ) :
    int u base (List.replicate k '0' ++ Nat.toDigits base n) = some (n : ℤ) := by
  have hdigit : ∀ c ∈ List.replicate k '0' ++ Nat.toDigits base n, ∃ d < 16, c = d.digitChar := by
    intro c hc
    rcases List.mem_append.mp hc with hzero | hdigit
    · exact ⟨0, by omega, (List.mem_replicate.mp hzero).2⟩
    · obtain ⟨d, hd, rfl⟩ := Numerals.mem_toDigits hlt hdigit
      exact ⟨d, by omega, rfl⟩
  have hread := Numerals.read_padded (readsDigits u hlt hle) k n false
  generalize List.replicate k '0' ++ Nat.toDigits base n = text at hdigit hread ⊢
  have hstrip : strip isspace text = text := by
    apply strip_eq_self
    intro c hc
    obtain ⟨d, hd, rfl⟩ := hdigit c hc
    exact digitChar_not_isspace hd
  -- none of the characters that `int` treats apart is a digit
  have hne : ∀ c ∈ text, c ≠ '-' ∧ c ≠ '+' ∧ c ≠ 'x' ∧ c ≠ 'X' := by
    intro c hc
    obtain ⟨d, hd, rfl⟩ := hdigit c hc
    have hcases : ∀ d < 16, d.digitChar ≠ '-' ∧ d.digitChar ≠ '+' ∧ d.digitChar ≠ 'x' ∧
        d.digitChar ≠ 'X' := by decide
    exact hcases d hd
  have hmark : drop_base_mark base text = text := by
    unfold drop_base_mark
    rw [if_neg]
    rintro ⟨-, hx | hX⟩
    · have hmem : 'x' ∈ text.take 2 := by
        rw [hx]
        decide
      exact (hne 'x' (List.mem_of_mem_take hmem)).2.2.1 rfl
    · have hmem : 'X' ∈ text.take 2 := by
        rw [hX]
        decide
      exact (hne 'X' (List.mem_of_mem_take hmem)).2.2.2 rfl
  have hhead : ∀ c, text.head? = some c → c ≠ '-' ∧ c ≠ '+' := by
    intro c hc
    have hmem := hne c (List.mem_of_mem_head? hc)
    exact ⟨hmem.1, hmem.2.1⟩
  unfold int
  dsimp only
  rw [hstrip, if_neg (fun h => (hhead _ h).1 rfl), if_neg (fun h => (hhead _ h).2 rfl)]
  unfold unsigned
  rw [hmark, hread]
  rfl

end PyStr

end EventFlow
