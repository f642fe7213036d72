/-
Integers in a binary floating-point format.

A format has a number of significand bits and a bound on its finite values. An
integer is converted by rounding it to the nearest integer with that many
significant bits, ties going to the even significand; a result at or above the
bound is an overflow. This is what IEEE 754 prescribes for the conversion of an
integer in the default rounding mode, and what languages that refuse infinities
do with large ones.

[`Format.of_int_eq_self_iff`] says which integers survive: those of the form
`m * 2 ^ k` with `m` within the significand, below the bound.

Going the other way, a value is printed as the shortest decimal that reads back as
it, and of those of that length as the nearest ([`Format.shortest`]). The decimal
need not be the value: above `2 ^ precision` the values lie apart, and a number with
fewer digits in between will do. What is certain is that it reads back
([`Format.of_nat_shortest`]), which is all that a writer of numbers promises.
-/
import Mathlib.Algebra.Order.Ring.Nat
import Mathlib.Data.Int.Order.Basic
import Mathlib.Data.Nat.Log

set_option autoImplicit false

namespace BinaryFloat

/-- A binary format. Finite values are below `2 ^ emax`. -/
structure Format where
  precision : ℕ
  emax : ℕ

/-- Double precision. Irreducible, so that nobody computes `2 ^ 1024` by
unfolding. -/
@[irreducible] def binary64 : Format where
  precision := 53
  emax := 1024

/-- The multiple of `b` nearest to `n`, the even one of two. -/
def round_to (b n : ℕ) : ℕ :=
  let q := n / b
  let r := n % b
  if 2 * r < b ∨ (2 * r = b ∧ q % 2 = 0) then q * b else (q + 1) * b

/-- The multiple of `2 ^ k` nearest to `n`: the low `k` bits are rounded away. -/
def round_at (k n : ℕ) : ℕ := round_to (2 ^ k) n

namespace Format

/-- The number of bits of `n` beyond the significand. -/
def excess (f : Format) (n : ℕ) : ℕ := n.log2 + 1 - f.precision

/-- `n` rounded to the format, `none` if that is too large. -/
def of_nat (f : Format) (n : ℕ) : Option ℕ :=
  let m := round_at (f.excess n) n
  if m < 2 ^ f.emax then some m else none

/-- An integer rounded to the format, by sign and magnitude. -/
def of_int (f : Format) (n : ℤ) : Option ℤ := (f.of_nat n.natAbs).map fun m : ℕ => n.sign * (m : ℤ)

/-- The decimals with one digit, with two and so on that are nearest to `n`; the last is
`n` itself. -/
def decimals (n : ℕ) : List ℕ :=
  (List.range (Nat.log 10 n + 1)).reverse.map fun j => round_to (10 ^ j) n

/-- What the value `n` of the format is printed as: the first of its decimals that reads
back as `n`. Reading is monotone, so if any decimal of a length reads back, the nearest of
that length does, and it is enough to try one for each length. -/
def shortest (f : Format) (n : ℕ) : ℕ :=
  ((decimals n).find? fun d => decide (f.of_nat d = some n)).getD n

/-- A value of the format. -/
def Exact (f : Format) (n : ℤ) : Prop :=
  (∃ m k : ℕ, m < 2 ^ f.precision ∧ n.natAbs = m * 2 ^ k) ∧ n.natAbs < 2 ^ f.emax

end Format

/-! ## Which integers survive -/

/-- Rounding keeps the multiples and nothing else. -/
theorem round_at_eq_self_iff (k n : ℕ) : round_at k n = n ↔ 2 ^ k ∣ n := by
  have hpos : 0 < 2 ^ k := Nat.two_pow_pos k
  constructor
  · intro h
    rw [← h, round_at, round_to]
    split
    · exact Nat.dvd_mul_left ..
    · exact Nat.dvd_mul_left ..
  · intro h
    rw [round_at, round_to, Nat.mod_eq_zero_of_dvd h, if_pos (.inl (by omega)), Nat.div_mul_cancel h]

namespace Format

variable {f : Format}

/-- The low bits of `n` are zero if and only if `n` has few significant bits. -/
theorem dvd_excess_iff (n : ℕ) :
    2 ^ f.excess n ∣ n ↔ ∃ m k : ℕ, m < 2 ^ f.precision ∧ n = m * 2 ^ k := by
  have hlt : n < 2 ^ (n.log2 + 1) := Nat.lt_log2_self
  constructor
  · rintro ⟨m, hm⟩
    refine ⟨m, f.excess n, ?_, by rw [Nat.mul_comm]; exact hm⟩
    by_cases hfit : n.log2 + 1 ≤ f.precision
    · have hzero : f.excess n = 0 := by unfold excess; omega
      rw [hzero, Nat.pow_zero, Nat.one_mul] at hm
      rw [← hm]
      exact hlt.trans_le (Nat.pow_le_pow_right Nat.two_pos hfit)
    · -- `n` has exactly `excess + precision` bits
      have hbits : n.log2 + 1 = f.excess n + f.precision := by unfold excess; omega
      have hpos : 0 < 2 ^ f.excess n := Nat.two_pow_pos _
      rw [hbits, Nat.pow_add] at hlt
      have hprod : 2 ^ f.excess n * m < 2 ^ f.excess n * 2 ^ f.precision := by omega
      exact Nat.lt_of_mul_lt_mul_left hprod
  · rintro ⟨m, k, hm, hn⟩
    by_cases hzero : n = 0
    · rw [hzero]
      exact Nat.dvd_zero _
    -- a shift below the excess would leave too many bits
    have hk : f.excess n ≤ k := by
      have hbound : n < 2 ^ (f.precision + k) := by
        rw [hn, Nat.pow_add]
        exact Nat.mul_lt_mul_of_pos_right hm (Nat.two_pow_pos k)
      have hlog := (Nat.log2_lt hzero).mpr hbound
      unfold excess
      omega
    have hdvd : 2 ^ k ∣ n := hn ▸ Nat.dvd_mul_left ..
    exact (Nat.pow_dvd_pow 2 hk).trans hdvd

theorem of_nat_eq_self_iff (n : ℕ) : f.of_nat n = some n ↔
    (∃ m k : ℕ, m < 2 ^ f.precision ∧ n = m * 2 ^ k) ∧ n < 2 ^ f.emax := by
  rw [← dvd_excess_iff, ← round_at_eq_self_iff, of_nat]
  constructor
  · intro h
    split at h
    · rename_i hlt
      rw [Option.some.injEq] at h
      exact ⟨h, h ▸ hlt⟩
    · cases h
  · rintro ⟨hround, hlt⟩
    rw [hround, if_pos hlt]

/-- **An integer survives the conversion if and only if it is a value of the
format.** -/
theorem of_int_eq_self_iff (n : ℤ) : f.of_int n = some n ↔ f.Exact n := by
  rw [Exact, ← of_nat_eq_self_iff, of_int]
  constructor
  · intro h
    obtain ⟨m, hm, heq⟩ := Option.map_eq_some_iff.mp h
    by_cases hzero : n = 0
    · subst hzero
      exact (of_nat_eq_self_iff 0).mpr
        ⟨⟨0, 0, Nat.two_pow_pos _, rfl⟩, Nat.two_pow_pos _⟩
    · have habs : m = n.natAbs := by
        have h2 := congrArg Int.natAbs heq
        rwa [Int.natAbs_mul, Int.natAbs_sign_of_ne_zero hzero, Nat.one_mul,
          Int.natAbs_natCast] at h2
      rw [hm, habs]
  · intro h
    rw [h, Option.map_some, Int.sign_mul_natAbs]

/-- Every integer of at most 53 bits is a double. -/
theorem exact_binary64 {n : ℤ} (h : n.natAbs < 2 ^ 53) : binary64.Exact n := by
  unfold binary64
  refine ⟨⟨n.natAbs, 0, h, (Nat.mul_one _).symm⟩, h.trans_le ?_⟩
  exact Nat.pow_le_pow_right Nat.two_pos (by decide)

/-! ## Printing and reading back -/

/-- **A value reads back from what it is printed as.** The decimal is found by testing
just that; and where no test succeeds the value itself is printed. -/
theorem of_nat_shortest {n : ℕ} (h : f.of_nat n = some n) : f.of_nat (f.shortest n) = some n := by
  unfold shortest
  cases hfind : (decimals n).find? fun d => decide (f.of_nat d = some n) with
  | none => exact h
  | some d =>
      have hd : decide (f.of_nat d = some n) = true := by
        simpa using List.find?_some hfind
      exact of_decide_eq_true hd

end Format

end BinaryFloat
