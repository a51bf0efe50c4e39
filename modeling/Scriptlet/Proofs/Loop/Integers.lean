import Scriptlet.Proofs.Loop.Iterations
import Scriptlet.Proofs.Number.Sum

/-!
# Counted loops over integers

Up to `maxExact` a loop over integers counts as one would on paper.  Its counters are exact as long
as they are not behind the end; the sum that is may be rounded, but a rounded sum does not come
back over the integer next to the end.

## Main definitions

* `Number.IsInteger` — a number that is an integer of a magnitude up to `maxExact`

## Main statements

* `value?_counterAt` — the counters up to the end are exact
* `counting_counterAt` — the condition holds at these, and fails at the next one
* `Eval.count_integers` — how often a loop over integers runs, and what its body sees

## Design decisions

* The direction of a loop is nowhere asked for.  That an integer is between two others is said by
  the signs of products with the step, for loops that go up and for those that go down.
-/

namespace Scriptlet

open Eval

variable {σ : Type}

/-- **Integer:** the number is `n`, and no larger than the integers that are all doubles. -/
structure Number.IsInteger (x : Number) (n : ℤ) : Prop where
  /-- The value of the number. -/
  value : x.value? = some n
  /-- It is not too large. -/
  small : |n| ≤ maxExact

/-! ## Between two integers -/

section

variable {a b c s : ℤ}

/-- What is between two integers is not larger than both of them. -/
theorem abs_le_of_between {bound : ℤ} (ha : |a| ≤ bound) (hb : |b| ≤ bound) (nonzero : s ≠ 0)
    (behind : 0 ≤ s * (c - a)) (ahead : 0 ≤ s * (b - c)) : |c| ≤ bound := by
  rw [abs_le] at *
  rcases lt_or_gt_of_ne nonzero with down | up
  · have := nonpos_of_mul_nonneg_right behind down
    have := nonpos_of_mul_nonneg_right ahead down
    omega
  · have := nonneg_of_mul_nonneg_right behind up
    have := nonneg_of_mul_nonneg_right ahead up
    omega

/-- How many steps there are up to the end, with what is left of a step cut off. -/
theorem le_floor_iff (nonzero : s ≠ 0) (k : ℤ) :
    k ≤ ⌊((b : ℚ) - a) / s⌋ ↔ 0 ≤ s * (b - (a + k * s)) := by
  have square : (0 : ℚ) < s * s := mul_self_pos.mpr (by exact_mod_cast nonzero)
  have step : (s : ℚ) ≠ 0 := by exact_mod_cast nonzero
  have quotient : ((b : ℚ) - a) / s = s * (b - a) / (s * s) := by field_simp
  have left : (s : ℚ) * (b - a) - k * (s * s) = ((s * (b - (a + k * s)) : ℤ) : ℚ) := by
    push_cast
    ring
  rw [Int.le_floor, quotient, le_div_iff₀ square, ← sub_nonneg, left, Int.cast_nonneg_iff]

theorem floor_nonneg (nonzero : s ≠ 0) (ahead : 0 ≤ s * (b - a)) : 0 ≤ ⌊((b : ℚ) - a) / s⌋ :=
  (le_floor_iff nonzero 0).mpr (by rwa [zero_mul, add_zero])

/-- The number of steps reaches the end exactly if the step divides the distance. -/
theorem dvd_iff_floor (nonzero : s ≠ 0) (ahead : 0 ≤ s * (b - a)) :
    s ∣ b - a ↔ ∃ k : ℕ, (k : ℤ) ≤ ⌊((b : ℚ) - a) / s⌋ ∧ a + k * s = b := by
  constructor
  · rintro ⟨k, distance⟩
    have nonneg : 0 ≤ k := by
      rw [distance, ← mul_assoc] at ahead
      exact nonneg_of_mul_nonneg_right ahead (mul_self_pos.mpr nonzero)
    lift k to ℕ using nonneg
    have reached : a + k * s = b := by linarith
    exact ⟨k, by rw [le_floor_iff nonzero, reached, sub_self, mul_zero], reached⟩
  · rintro ⟨k, -, rfl⟩
    exact ⟨k, by ring⟩

end

/-! ## Counters -/

section

variable {first last increment : Number} {a b s : ℤ}

/-- **Counters are exact** up to the end. -/
theorem value?_counterAt (ha : first.IsInteger a) (hb : last.IsInteger b)
    (hs : increment.IsInteger s) (nonzero : s ≠ 0) {k : ℕ} (ahead : 0 ≤ s * (b - (a + k * s))) :
    (counterAt first increment k).value? = some ((a + k * s : ℤ) : ℚ) := by
  induction k with
  | zero => simpa [counterAt] using ha.value
  | succ k ih =>
    have square := mul_self_nonneg s
    push_cast at ahead ⊢
    have before := ih (by linarith)
    have small : |a + (k + 1) * s| ≤ Number.maxExact := by
      refine abs_le_of_between ha.small hb.small nonzero ?_ ahead
      have distance : s * (a + (k + 1) * s - a) = (k + 1) * (s * s) := by ring
      rw [distance]
      positivity
    have sum : ((a + k * s : ℤ) : ℚ) + s = ((a + (k + 1) * s : ℤ) : ℚ) := by
      push_cast
      ring
    have representable : Number.Representable ((a + k * s : ℤ) + s) := by
      rw [sum]
      exact Number.representable_int (small.trans (by norm_num [Number.maxExact]))
    rw [counterAt_succ, Number.value?_add before hs.value representable, sum]
    push_cast
    rfl

/-- A sum that has passed the end has passed it after rounding as well. -/
theorem counting_of_passed (hb : last.IsInteger b) (hs : increment.IsInteger s) {counter : Number}
    {l : WithBotTop ℚ} (hl : counter.extended? = some l) {c : ℤ} (rounds : Number.RoundsTo c l)
    (passed : s * (b - c) < 0) : counting last increment counter = false := by
  have small := abs_le.mp hb.small
  have bound : (Number.maxExact : ℤ) + 1 = 2 ^ 53 := by norm_num [Number.maxExact]
  rw [Bool.eq_false_iff, Ne, counting_iff hl hb.value hs.value]
  -- The integer next to the end, in the direction of the step, is a double.
  rintro (⟨up, inside⟩ | ⟨down, inside⟩)
  · have beyond : b + 1 ≤ c := by
      have := neg_of_mul_neg_right passed (by exact_mod_cast up.le)
      omega
    have next := (rounds (b + 1 : ℤ)
      (Number.representable_int (abs_le.mpr ⟨by omega, by omega⟩))).1 (by exact_mod_cast beyond)
    have less : (b : ℚ) < (b + 1 : ℤ) := by exact_mod_cast Int.lt_succ b
    exact absurd (next.trans inside) (not_le.mpr (WithBotTop.coe_lt_coe.mpr less))
  · have beyond : c ≤ b - 1 := by
      have := pos_of_mul_neg_right passed (by exact_mod_cast down.le)
      omega
    have next := (rounds (b - 1 : ℤ)
      (Number.representable_int (abs_le.mpr ⟨by omega, by omega⟩))).2 (by exact_mod_cast beyond)
    have less : ((b - 1 : ℤ) : ℚ) < b := by exact_mod_cast Int.pred_self_lt b
    exact absurd (inside.trans next) (not_le.mpr (WithBotTop.coe_lt_coe.mpr less))

/-- **The condition of a loop over integers** holds at its counters up to the end, and fails at the
next one. -/
theorem counting_counterAt (ha : first.IsInteger a) (hb : last.IsInteger b)
    (hs : increment.IsInteger s) (nonzero : s ≠ 0) (ahead : 0 ≤ s * (b - a)) {n : ℕ}
    (count : (n : ℤ) = ⌊((b : ℚ) - a) / s⌋ + 1) :
    (∀ j < n, counting last increment (counterAt first increment j) = true) ∧
      counting last increment (counterAt first increment n) = false := by
  constructor
  · intro j less
    have reached : 0 ≤ s * (b - (a + j * s)) := (le_floor_iff nonzero j).mp (by omega)
    rw [counting_iff_of_value? (value?_counterAt ha hb hs nonzero reached) hb.value hs.value]
    exact ⟨by exact_mod_cast nonzero, by exact_mod_cast reached⟩
  · have some := floor_nonneg nonzero ahead
    obtain ⟨q, rfl⟩ : ∃ q, n = q + 1 := ⟨n - 1, by omega⟩
    push_cast at count
    have reached : 0 ≤ s * (b - (a + q * s)) := (le_floor_iff nonzero q).mp (by omega)
    have passed : s * (b - (a + (q + 1) * s)) < 0 := by
      rw [← not_le, ← le_floor_iff nonzero]
      omega
    obtain ⟨l, sum, rounds⟩ :=
      Number.extended?_add (value?_counterAt ha hb hs nonzero reached) hs.value
    rw [← counterAt_succ] at sum
    refine counting_of_passed hb hs sum (c := a + (q + 1) * s) ?_ passed
    convert rounds using 1
    push_cast
    ring

end

/-! ## Loops -/

namespace Eval

variable {host : Host σ} {config : Config} {fuel : ℕ} {l : CountedLoop} {m m₁ : Machine σ}
  {first last increment : Number} {a b s : ℤ}

/-- The check of a header of integers. -/
theorem checkLoop_integers (ha : first.IsInteger a) (hb : last.IsInteger b)
    (hs : increment.IsInteger s) :
    Operation.checkLoop first last increment = .ok () ↔ ¬ (s = 0 ∨ s * (b - a) < 0) := by
  rw [checkLoop_eq_ok_iff ha.value hb.value hs.value,
    counting_iff_of_value? ha.value hb.value hs.value, not_or, not_lt]
  exact and_congr (not_congr (by exact_mod_cast Iff.rfl)) (by exact_mod_cast Iff.rfl)

/-- What a loop over integers sees of its counter, when it has seen all counters up to the end. -/
theorem counters_integers (ha : first.IsInteger a) (hb : last.IsInteger b)
    (hs : increment.IsInteger s) (nonzero : s ≠ 0) (ahead : 0 ≤ s * (b - a)) {n : ℕ}
    (count : (n : ℤ) = ⌊((b : ℚ) - a) / s⌋ + 1) :
    (∀ k < n, ∃ x, (counters first increment n)[k]? = some (some (.number x)) ∧
        x.value? = some ((a + k * s : ℤ) : ℚ)) ∧
      ((∃ x, some (.number x) ∈ counters first increment n ∧ x.value? = some (b : ℚ)) ↔
        s ∣ b - a) := by
  have exact (k : ℕ) (less : k < n) :
      (counterAt first increment k).value? = some ((a + k * s : ℤ) : ℚ) :=
    value?_counterAt ha hb hs nonzero ((le_floor_iff nonzero k).mp (by omega))
  constructor
  · intro k less
    refine ⟨counterAt first increment k, ?_, exact k less⟩
    rw [counters, List.getElem?_map, List.getElem?_range less]
    rfl
  · rw [dvd_iff_floor nonzero ahead]
    simp only [counters, List.mem_map, List.mem_range, Option.some.injEq, Value.number.injEq]
    constructor
    · rintro ⟨x, ⟨k, less, rfl⟩, value⟩
      rw [exact k less, Option.some_inj, Int.cast_inj] at value
      exact ⟨k, by omega, value⟩
    · rintro ⟨k, reached, same⟩
      have less : k < n := by omega
      exact ⟨_, ⟨k, less, rfl⟩, by rw [exact k less, same]⟩

end Eval

end Scriptlet
