/-
The text that `json.dumps` writes for a value.

The encoder's defaults are kept: `", "` and `": "` between the parts, and every
character that is not printable ASCII as an escape, those beyond the basic plane
as a pair of surrogates. So the text of a value is one line of printable ASCII
([`dumps_printable`]), and neither begins nor ends with a blank
([`dumps_solid`]). The text of a float is its `repr`, a parameter.
-/
import Mathlib.Data.Bool.AllAny
import EventFlow.Json
import EventFlow.PyStr
import EventFlow.Library.Backtracking

set_option autoImplicit false

namespace EventFlow

open Backtracking

/-- `repr` of an `int`. -/
def int_text : ℤ → List Char
  | .ofNat n => Nat.toDigits 10 n
  | .negSucc n => '-' :: Nat.toDigits 10 (n + 1)

/-- The escape `\uXXXX`. Four hexadecimal digits, in lower case. -/
def unicode_escape (n : ℕ) : List Char :=
  "\\u".toList ++ (List.replicate (4 - (Nat.toDigits 16 n).length) '0' ++ Nat.toDigits 16 n)

/-- A character of a string: the quote, the backslash and five of the controls have an
escape of their own. Other characters beyond printable ASCII are written by their code, or
by two surrogates. -/
def escape_char (c : Char) : List Char :=
  match c.toNat with
  | 34 => "\\\"".toList
  | 92 => "\\\\".toList
  | 10 => "\\n".toList
  | 13 => "\\r".toList
  | 9 => "\\t".toList
  | 12 => "\\f".toList
  | 8 => "\\b".toList
  | n =>
    if 32 ≤ n ∧ n ≤ 126 then [c]
    else if n < 65536 then unicode_escape n
    else
      let n := n - 65536
      unicode_escape (55296 + n / 1024 % 1024) ++ unicode_escape (56320 + n % 1024)

/-- A text between two characters. -/
def enclosed (first last : Char) (text : List Char) : List Char := first :: (text ++ [last])

/-- A string. -/
def quoted (s : String) : List Char := enclosed '\x22' '\x22' (s.toList.flatMap escape_char)

section Dumps

variable (float_repr : ℚ → List Char)

mutual

/-- `json.dumps`. The members of an object are written in their order. -/
def dumps : Json → List Char
  | .null => "null".toList
  | .bool true => "true".toList
  | .bool false => "false".toList
  | .int n => int_text n
  | .float q => float_repr q
  | .str s => quoted s
  | .arr items => enclosed '[' ']' (List.intercalate ", ".toList (dumps_items items))
  | .obj members => enclosed '\x7b' '\x7d' (List.intercalate ", ".toList (dumps_members members))

/-- The texts of the items of an array. -/
def dumps_items : List Json → List (List Char)
  | [] => []
  | v :: items => dumps v :: dumps_items items

/-- The texts of the members of an object. -/
def dumps_members : List (String × Json) → List (List Char)
  | [] => []
  | (key, v) :: members => (quoted key ++ (": ".toList ++ dumps v)) :: dumps_members members

end

end Dumps

mutual

/-- No float occurs in a value. -/
def Json.float_free : Json → Bool
  | .float _ => false
  | .arr items => Json.float_free_items items
  | .obj members => Json.float_free_members members
  | _ => true

def Json.float_free_items : List Json → Bool
  | [] => true
  | v :: items => v.float_free && Json.float_free_items items

def Json.float_free_members : List (String × Json) → Bool
  | [] => true
  | (_, v) :: members => v.float_free && Json.float_free_members members

end

/-! ## Printable text -/

/-- Printable ASCII. -/
def Printable (text : List Char) : Prop := ∀ c ∈ text, 32 ≤ c.toNat ∧ c.toNat ≤ 126

instance (text : List Char) : Decidable (Printable text) :=
  List.decidableBAll (fun c : Char => 32 ≤ c.toNat ∧ c.toNat ≤ 126) text

section Printable

variable {text text' : List Char}

theorem Printable.append (h : Printable text) (h' : Printable text') :
    Printable (text ++ text') := by
  intro c hc
  rcases List.mem_append.mp hc with hc | hc
  · exact h c hc
  · exact h' c hc

theorem Printable.enclosed (h : Printable text) {first last : Char}
    (hfirst : Printable [first]) (hlast : Printable [last]) :
    Printable (enclosed first last text) :=
  Printable.append hfirst (h.append hlast)

theorem Printable.intercalate {texts : List (List Char)} (h : ∀ t ∈ texts, Printable t) :
    Printable (List.intercalate ", ".toList texts) := by
  have hsep : Printable ", ".toList := by decide
  intro c hc
  rcases PyStr.mem_join hc with hc | ⟨t, ht, hc⟩
  · exact hsep c hc
  · exact h t ht c hc

/-- Digits are printable, and neither blanks nor `=`. -/
theorem digits_range {base n : ℕ} (hlt : 1 < base) (hle : base ≤ 16) :
    ∀ c ∈ Nat.toDigits base n, 48 ≤ c.toNat ∧ c.toNat ≤ 102 := by
  intro c hc
  obtain ⟨d, hd, rfl⟩ := Numerals.mem_toDigits hlt hc
  exact PyStr.digitChar_printable (by omega)

theorem digits_printable {base n : ℕ} (hlt : 1 < base) (hle : base ≤ 16) :
    Printable (Nat.toDigits base n) := by
  intro c hc
  have hrange := digits_range hlt hle c hc
  omega

theorem unicode_escape_printable (n : ℕ) : Printable (unicode_escape n) := by
  apply Printable.append (by decide)
  apply Printable.append
  · intro c hc
    rw [(List.mem_replicate.mp hc).2]
    decide
  · exact digits_printable (by decide) (by decide)

theorem escape_char_printable (c : Char) : Printable (escape_char c) := by
  unfold escape_char
  split
  · decide
  · decide
  · decide
  · decide
  · decide
  · decide
  · decide
  · split
    · rename_i hascii
      intro d hd
      rw [List.mem_singleton.mp hd]
      exact hascii
    · split
      · exact unicode_escape_printable _
      · exact (unicode_escape_printable _).append (unicode_escape_printable _)

theorem quoted_printable (s : String) : Printable (quoted s) := by
  apply Printable.enclosed _ (by decide) (by decide)
  intro c hc
  obtain ⟨d, -, hd⟩ := List.mem_flatMap.mp hc
  exact escape_char_printable d c hd

theorem int_text_printable (n : ℤ) : Printable (int_text n) := by
  cases n with
  | ofNat n => exact digits_printable (by decide) (by decide)
  | negSucc n =>
      have hminus : Printable ['-'] := by decide
      exact hminus.append (digits_printable (by decide) (by decide))

end Printable

section Dumped

variable (float_repr : ℚ → List Char)

mutual

/-- **A dumped value is printable**, on one line. Along the structure of the value: the
separators are printable, and in a string everything that is not is escaped. -/
theorem dumps_printable : ∀ v : Json, v.float_free = true → Printable (dumps float_repr v)
  | .null, _ => (by decide : Printable "null".toList)
  | .bool true, _ => (by decide : Printable "true".toList)
  | .bool false, _ => (by decide : Printable "false".toList)
  | .int n, _ => int_text_printable n
  | .float _, h => absurd h Bool.false_ne_true
  | .str s, _ => quoted_printable s
  | .arr items, h =>
      (Printable.intercalate (dumps_items_printable items h)).enclosed (by decide) (by decide)
  | .obj members, h =>
      (Printable.intercalate (dumps_members_printable members h)).enclosed (by decide) (by decide)

theorem dumps_items_printable : ∀ items : List Json, Json.float_free_items items = true →
    ∀ text ∈ dumps_items float_repr items, Printable text
  | [], _, _, h => absurd h List.not_mem_nil
  | v :: items, h, text, htext => by
      obtain ⟨hv, hitems⟩ := Bool.and_eq_true_iff.mp h
      rcases List.mem_cons.mp htext with rfl | htext
      · exact dumps_printable v hv
      · exact dumps_items_printable items hitems text htext

theorem dumps_members_printable : ∀ members : List (String × Json),
    Json.float_free_members members = true →
    ∀ text ∈ dumps_members float_repr members, Printable text
  | [], _, _, h => absurd h List.not_mem_nil
  | (key, v) :: members, h, text, htext => by
      obtain ⟨hv, hmembers⟩ := Bool.and_eq_true_iff.mp h
      rcases List.mem_cons.mp htext with rfl | htext
      · exact (quoted_printable key).append (Printable.append (by decide) (dumps_printable v hv))
      · exact dumps_members_printable members hmembers text htext

end

end Dumped

/-! ## Where the text begins and ends -/

section Ends

variable {float_repr : ℚ → List Char}

/-- The characters of a number. -/
theorem int_text_chars (n : ℤ) : ∀ c ∈ int_text n, PyStr.isspace c = false ∧ c ≠ '=' := by
  have hdigits : ∀ n, ∀ c ∈ Nat.toDigits 10 n, PyStr.isspace c = false ∧ c ≠ '=' := by
    intro n c hc
    obtain ⟨d, hd, rfl⟩ := Numerals.mem_toDigits (by decide) hc
    have hall : ∀ d < 10, PyStr.isspace d.digitChar = false ∧ d.digitChar ≠ '=' := by decide
    exact hall d hd
  cases n with
  | ofNat n => exact hdigits n
  | negSucc n =>
      intro c hc
      rcases List.mem_cons.mp hc with rfl | hc
      · decide
      · exact hdigits (n + 1) c hc

theorem int_text_ne_nil (n : ℤ) : int_text n ≠ [] := by
  cases n with
  | ofNat n => exact Nat.toDigits_ne_nil
  | negSucc n => exact List.cons_ne_nil _ _

/-- The words for `None` and for the truth values. -/
theorem word_chars : ∀ word ∈ ["null", "true", "false"],
    word.toList ≠ [] ∧ ∀ c ∈ word.toList, PyStr.isspace c = false ∧ c ≠ '=' := by
  intro word hword
  simp only [List.mem_cons, List.not_mem_nil, or_false] at hword
  rcases hword with rfl | rfl | rfl
  · exact ⟨by decide, List.all_iff_forall_prop.mp (by decide)⟩
  · exact ⟨by decide, List.all_iff_forall_prop.mp (by decide)⟩
  · exact ⟨by decide, List.all_iff_forall_prop.mp (by decide)⟩

theorem bool_text (b : Bool) :
    ∃ word ∈ ["null", "true", "false"], dumps float_repr (.bool b) = word.toList := by
  cases b with
  | true => exact ⟨"true", by decide, rfl⟩
  | false => exact ⟨"false", by decide, rfl⟩

theorem solid_of_chars {text : List Char} (hne : text ≠ [])
    (h : ∀ c ∈ text, PyStr.isspace c = false ∧ c ≠ '=') : Solid PyStr.isspace text :=
  ⟨hne, fun c hc => (h c (List.mem_of_mem_head? hc)).1,
    fun c hc => (h c (List.mem_of_mem_getLast? hc)).1⟩

theorem solid_enclosed {first last : Char} (hfirst : PyStr.isspace first = false)
    (hlast : PyStr.isspace last = false) (text : List Char) :
    Solid PyStr.isspace (enclosed first last text) := by
  refine ⟨List.cons_ne_nil _ _, ?_, ?_⟩
  · rintro c ⟨⟩
    exact hfirst
  · intro c hc
    rw [enclosed, ← List.cons_append, List.getLast?_concat, Option.mem_some_iff] at hc
    rw [← hc]
    exact hlast

/-- **A dumped value begins and ends with a character that is no blank.** Text with quotes
or brackets around it is clear, and the rest are words and digits. -/
theorem dumps_solid {v : Json} (h : v.float_free = true) :
    Solid PyStr.isspace (dumps float_repr v) := by
  cases v with
  | null =>
      have hword := word_chars "null" List.mem_cons_self
      exact solid_of_chars hword.1 hword.2
  | bool b =>
      obtain ⟨word, hmem, htext⟩ := bool_text b
      rw [htext]
      exact solid_of_chars (word_chars word hmem).1 (word_chars word hmem).2
  | int n => exact solid_of_chars (int_text_ne_nil n) (int_text_chars n)
  | float q => cases h
  | str s => exact solid_enclosed (by decide) (by decide) _
  | arr items => exact solid_enclosed (by decide) (by decide) _
  | obj members => exact solid_enclosed (by decide) (by decide) _

/-- Nothing in front of it becomes another operator. -/
theorem dumps_head {v : Json} (h : v.float_free = true) :
    ∀ c ∈ (dumps float_repr v).head?, c ≠ '=' := by
  cases v with
  | null =>
      intro c hc
      exact ((word_chars "null" List.mem_cons_self).2 c (List.mem_of_mem_head? hc)).2
  | bool b =>
      obtain ⟨word, hmem, htext⟩ := bool_text b
      rw [htext]
      intro c hc
      exact ((word_chars word hmem).2 c (List.mem_of_mem_head? hc)).2
  | int n =>
      intro c hc
      exact (int_text_chars n c (List.mem_of_mem_head? hc)).2
  | float q => cases h
  | str s =>
      rintro c ⟨⟩
      decide
  | arr items =>
      rintro c ⟨⟩
      decide
  | obj members =>
      rintro c ⟨⟩
      decide

end Ends

end EventFlow
