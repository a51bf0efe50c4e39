import Mathlib.Algebra.Order.Field.Power
import Mathlib.Algebra.Order.Field.Rat
import Mathlib.Tactic.Positivity
import Scriptlet.Number.Exact

/-!
# The values of numbers

A finite double is a rational number.  Whether a number names a position of an array is told by
this value alone: it has to be a natural number below the length.

## Main definitions

* `Number.View.value?`, `Number.value?` — the rational number that a double is

## Main statements

* `Number.natural?_eq_some_iff` — a double is equal to a natural number if that is its value
* `Number.index?_eq_some_iff` — a double names the position that is its value

## Design decisions

* Both zeros have the value zero, and not-a-number and the infinities have no value.
-/

namespace Scriptlet

namespace Number

/-- The value of `± mantissa · 2 ^ exponent`. -/
def View.value? : View → Option ℚ
  | .finite negative mantissa exponent =>
    some ((if negative then -1 else 1) * (mantissa * 2 ^ exponent))
  | .nan | .infinite _ => none

/-- **Value of a number**, unless it is not a number or infinite. -/
def value? (x : Number) : Option ℚ := (view x).value?

/-- Powers of two with an exponent that is not negative. -/
theorem zpow_of_nonneg {e : ℤ} (h : 0 ≤ e) : (2 : ℚ) ^ e = (2 ^ e.toNat : ℕ) := by
  obtain ⟨k, rfl⟩ := Int.eq_ofNat_of_zero_le h
  simp

/-- Powers of two with a negative exponent. -/
theorem zpow_of_neg {e : ℤ} (h : e < 0) : (2 : ℚ) ^ e = ((2 ^ (-e).toNat : ℕ) : ℚ)⁻¹ := by
  obtain ⟨k, rfl⟩ : ∃ k : ℕ, e = -k := ⟨(-e).toNat, by omega⟩
  simp

/-- **When a mantissa is a natural number.** -/
theorem mantissa_eq_iff {m n : ℕ} {e : ℤ} :
    (m : ℚ) * 2 ^ e = n ↔
      if 0 ≤ e then m * 2 ^ e.toNat = n
      else m % 2 ^ (-e).toNat = 0 ∧ m / 2 ^ (-e).toNat = n := by
  split
  · next h =>
    rw [zpow_of_nonneg h]
    exact_mod_cast Iff.rfl
  · next h =>
    have power : 0 < 2 ^ (-e).toNat := Nat.two_pow_pos _
    rw [zpow_of_neg (by omega), ← div_eq_mul_inv,
      div_eq_iff (by exact_mod_cast power.ne')]
    constructor
    · intro same
      have whole : m = n * 2 ^ (-e).toNat := by exact_mod_cast same
      rw [whole]
      exact ⟨Nat.mul_mod_left _ _, Nat.mul_div_cancel _ power⟩
    · rintro ⟨divides, quotient⟩
      have whole := Nat.div_mul_cancel (Nat.dvd_of_mod_eq_zero divides)
      rw [quotient] at whole
      exact_mod_cast whole.symm

/-- **The natural number that a double is equal to** is its value. -/
theorem natural?_eq_some_iff {x : Number} {n : ℕ} : natural? x = some n ↔ value? x = some ↑n := by
  unfold natural? value?
  cases view x with
  | nan => simp [View.value?]
  | infinite negative => simp [View.value?]
  | finite negative m e =>
    have power : (0 : ℚ) < 2 ^ e := by positivity
    simp only [View.value?, Option.some.injEq]
    by_cases zero : m = 0
    · subst zero
      cases negative <;> simp [Nat.cast_eq_zero, eq_comm]
    · cases negative with
      | true =>
        -- A value below zero is not a natural number.
        have below : (-1 : ℚ) * (m * 2 ^ e) < 0 := by
          rw [neg_one_mul]
          exact neg_neg_of_pos (by positivity)
        have differs : (-1 : ℚ) * (m * 2 ^ e) ≠ n := by
          intro same
          rw [same] at below
          exact absurd below (not_lt.mpr (Nat.cast_nonneg n))
        simpa [zero] using differs
      | false =>
        simp only [Bool.false_and, Bool.false_eq_true, if_false, one_mul, mantissa_eq_iff,
          Nat.pow_eq]
        split
        · simp
        · split
          · next divides =>
            rw [Option.some.injEq]
            exact ⟨fun quotient => ⟨divides, quotient⟩, And.right⟩
          · next divides => exact ⟨nofun, fun both => absurd both.1 divides⟩

/-- **Array position.**  A number names the position that is its value. -/
theorem index?_eq_some_iff {x : Number} {length i : ℕ} (h : length ≤ maxExact + 1) :
    index? x length = some i ↔ value? x = some ↑i ∧ i < length := by
  simp only [index?, Option.filter_eq_some_iff, natural?_eq_some_iff, Bool.and_eq_true,
    decide_eq_true_eq]
  constructor
  · rintro ⟨value, -, inside⟩
    exact ⟨value, inside⟩
  · rintro ⟨value, inside⟩
    exact ⟨value, by omega, inside⟩

end Number

end Scriptlet
