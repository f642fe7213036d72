/-
Numbers as text: writing in a base, reading back, and joining with a separator.

A number is written by `Nat.toDigits` and read by `read`, which takes the digits
one after the other and lets single underscores stand between them. What a
character is worth is a parameter, so that one reader serves every alphabet that
gives the digits of the base their values ([`read_toDigits_append`]). Leading zeros do
not matter ([`read_padded`]).

A text that ends in a separator and a part without one is taken apart in one way
only, whatever stands before it ([`append_separator_inj`]).
-/
import Mathlib.Data.Nat.Digits.Defs

set_option autoImplicit false

namespace Numerals

/-! ## Reading -/

section Read

variable (digit : Char → Option ℕ) (base : ℕ)

/-- The number a text stands for, with the digits read so far in `acc`;
`after_digit` is that the last character was a digit. -/
def read : ℕ → Bool → List Char → Option ℕ
  | acc, after_digit, [] => if after_digit then some acc else none
  | acc, after_digit, c :: rest =>
    if c = '_' then (if after_digit then read acc false rest else none)
    else
      match digit c with
      | none => none
      | some d => if d < base then read (base * acc + d) true rest else none

/-- The characters that `Nat.toDigits` writes are worth what they stand for. -/
structure ReadsDigits : Prop where
  one_lt : 1 < base
  digit_eq : ∀ d < base, digit d.digitChar = some d
  ne_underscore : ∀ d < base, d.digitChar ≠ '_'

variable {digit : Char → Option ℕ} {base : ℕ}

theorem read_digit_cons (h : ReadsDigits digit base) {d : ℕ} (hd : d < base) (acc : ℕ)
    (after_digit : Bool) (rest : List Char) :
    read digit base acc after_digit (d.digitChar :: rest)
      = read digit base (base * acc + d) true rest := by
  rw [read, if_neg (h.ne_underscore d hd), h.digit_eq d hd]
  exact if_pos hd

/-- Reading the digits of a number, and on from there. -/
theorem read_toDigits_append (h : ReadsDigits digit base) (n : ℕ) (after_digit : Bool)
    (rest : List Char) :
    read digit base 0 after_digit (Nat.toDigits base n ++ rest)
      = read digit base n true rest := by
  -- on the number: all its digits but the last are those of the quotient
  induction n using Nat.strongRecOn generalizing rest with
  | _ n ih =>
      rw [Nat.toDigits_eq_if h.one_lt]
      have hpos : 0 < base := Nat.lt_trans Nat.zero_lt_one h.one_lt
      split
      · rename_i hlt
        rw [List.singleton_append, read_digit_cons h hlt, Nat.mul_zero, Nat.zero_add]
      · rename_i hle
        have hquot : n / base < n := Nat.div_lt_self (by omega) h.one_lt
        rw [List.append_assoc, ih (n / base) hquot, List.singleton_append,
          read_digit_cons h (Nat.mod_lt n hpos), Nat.div_add_mod]

/-- **A written number reads back**, and leading zeros are worth nothing. -/
theorem read_padded (h : ReadsDigits digit base) (k n : ℕ) (after_digit : Bool) :
    read digit base 0 after_digit (List.replicate k '0' ++ Nat.toDigits base n) = some n := by
  induction k generalizing after_digit with
  | zero =>
      have hread := read_toDigits_append h n after_digit []
      rw [List.append_nil] at hread
      rw [List.replicate_zero, List.nil_append, hread]
      rfl
  | succ k ih =>
      have hpos : 0 < base := Nat.lt_trans Nat.zero_lt_one h.one_lt
      have hzero := read_digit_cons h hpos 0 after_digit
        (List.replicate k '0' ++ Nat.toDigits base n)
      rw [List.replicate_succ, List.cons_append]
      exact hzero.trans (ih true)

end Read

/-! ## Writing -/

/-- What `Nat.toDigits` writes are digits. -/
theorem mem_toDigits {base n : ℕ} (hbase : 1 < base) {c : Char} (h : c ∈ Nat.toDigits base n) :
    ∃ d < base, c = d.digitChar := by
  induction n using Nat.strongRecOn with
  | _ n ih =>
      have hpos : 0 < base := Nat.lt_trans Nat.zero_lt_one hbase
      rw [Nat.toDigits_eq_if hbase] at h
      split at h
      · rename_i hlt
        exact ⟨n, hlt, List.mem_singleton.mp h⟩
      · rename_i hle
        rcases List.mem_append.mp h with hquot | hlast
        · exact ih (n / base) (Nat.div_lt_self (by omega) hbase) hquot
        · exact ⟨n % base, Nat.mod_lt n hpos, List.mem_singleton.mp hlast⟩

theorem toDigits_ten_injective : Function.Injective (Nat.toDigits 10) := by
  intro m n h
  have hread := congrArg (fun digits => Nat.ofDigitChars 10 digits 0) h
  simpa only [Nat.ofDigitChars_ten_toDigits] using hread

/-! ## Joining -/

/-- **The last separator.** What stands after the last separator, and before it,
is known from the text. -/
theorem append_separator_inj {α : Type*} {sep : α} {xs ys as bs : List α} (has : sep ∉ as)
    (hbs : sep ∉ bs) (h : xs ++ sep :: as = ys ++ sep :: bs) : xs = ys ∧ as = bs := by
  rcases List.append_eq_append_iff.mp h with ⟨mid, hys, hmid⟩ | ⟨mid, hxs, hmid⟩
  · cases mid with
    | nil =>
        rw [List.append_nil] at hys
        rw [List.nil_append, List.cons.injEq] at hmid
        exact ⟨hys.symm, hmid.2⟩
    | cons c mid =>
        rw [List.cons_append, List.cons.injEq] at hmid
        exact absurd (hmid.2 ▸ List.mem_append_right mid List.mem_cons_self) has
  · cases mid with
    | nil =>
        rw [List.append_nil] at hxs
        rw [List.nil_append, List.cons.injEq] at hmid
        exact ⟨hxs, hmid.2.symm⟩
    | cons c mid =>
        rw [List.cons_append, List.cons.injEq] at hmid
        exact absurd (hmid.2 ▸ List.mem_append_right mid List.mem_cons_self) hbs

end Numerals
