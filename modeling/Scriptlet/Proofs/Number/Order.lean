import Scriptlet.Proofs.Number.Unpacked

/-!
# The order of numbers

Numbers compare as their values do, with the infinities below and above all of them.  The model of
doubles compares exponents before mantissas; that this is the order of the values rests on the
normal form of what is unpacked from a double.

## Main definitions

* `Number.extended?` — the value of a number, where an infinity is an end of the scale
* `Number.Fits` — mantissas and exponents in normal form

## Main statements

* `Number.Fits.compare_eq` — exponents first and mantissas second is the order of the values
* `Number.lt_iff`, `Number.le_iff`, `Number.beq_iff` — numbers compare as their values

## Design decisions

* Both zeros are equal, as their values are.  Not-a-number has no value, so the statements leave it
  out: nothing is less than it, greater or equal to it.
-/

namespace Scriptlet

namespace Number

open Float.Model Float.Model.UnpackedFloat

/-- The value of `± mantissa · 2 ^ exponent`, or an end of the scale. -/
def View.extended? : View → Option (WithBotTop ℚ)
  | .finite negative mantissa exponent =>
    some ↑((if negative then -1 else 1) * (mantissa * 2 ^ exponent) : ℚ)
  | .infinite negative => some (if negative then ⊥ else ⊤)
  | .nan => none

/-- **Extended value of a number**, unless it is not a number. -/
def extended? (x : Number) : Option (WithBotTop ℚ) := (view x).extended?

theorem View.extended?_eq_some_coe_iff {v : View} {p : ℚ} :
    v.extended? = some (p : WithBotTop ℚ) ↔ v.value? = some p := by
  cases v with
  | nan => simp [View.extended?, View.value?]
  | infinite negative =>
    cases negative
    · simpa [View.extended?, View.value?] using (WithBotTop.coe_ne_top p).symm
    · simpa [View.extended?, View.value?] using (WithBotTop.coe_ne_bot p).symm
  | finite negative m e =>
    simp only [View.extended?, View.value?, Option.some.injEq, WithBotTop.coe_injective.eq_iff]

/-- A number with a value has that as its extended value. -/
theorem extended?_eq_some_coe_iff {x : Number} {p : ℚ} :
    extended? x = some (p : WithBotTop ℚ) ↔ value? x = some p :=
  View.extended?_eq_some_coe_iff

theorem extended?_zero : extended? 0 = some ((0 : ℚ) : WithBotTop ℚ) := by
  have zero : view 0 = .finite false 0 (-1074) := by decide +kernel
  rw [extended?, zero]
  simp [View.extended?]

/-- A comparison is not changed by what keeps the order. -/
theorem compare_map {α β : Type} [LinearOrder α] [LinearOrder β] {f : α → β} (h : StrictMono f)
    (a b : α) : compare (f a) (f b) = compare a b := by
  rw [← cmp_eq_compare, ← cmp_eq_compare, h.cmp_map_eq]

/-! ## Normal form -/

/-- **Normal form** of a mantissa and an exponent: 53 bits, the highest of which is set unless the
exponent is the least one.  There is no greatest exponent here. -/
structure Fits (m : ℕ) (e : ℤ) : Prop where
  /-- There are no more than 53 bits. -/
  high : m < 2 ^ 53
  /-- The exponent is at least the least one. -/
  least : -1074 ≤ e
  /-- All of the 53 bits are needed, or the exponent cannot be less. -/
  full : 2 ^ 52 ≤ m ∨ e = -1074

/-- What 53 bits with a smaller exponent stand for is less than what they stand for with the
highest bit set and a larger exponent. -/
theorem lt_of_exponent_lt {n : ℚ} {m : ℕ} {e f : ℤ} (small : n < 2 ^ 53) (full : 2 ^ 52 ≤ m)
    (h : e < f) : n * 2 ^ e < m * 2 ^ f := by
  have low : (2 : ℚ) ^ 52 ≤ m := by exact_mod_cast full
  have power : (2 : ℚ) ^ (e + 1) ≤ 2 ^ f := zpow_le_zpow_right₀ (by norm_num) (by omega)
  calc n * 2 ^ e < 2 ^ 53 * 2 ^ e := mul_lt_mul_of_pos_right small (by positivity)
    _ = 2 ^ 52 * 2 ^ (e + 1) := by rw [zpow_add_one₀ (by norm_num)]; ring
    _ ≤ m * 2 ^ f := mul_le_mul low power (by positivity) (by positivity)

namespace Fits

variable {m n : ℕ} {e f : ℤ}

theorem lt_of_lt (h : Fits m e) (h' : Fits n f) (less : e < f) : (m : ℚ) * 2 ^ e < n * 2 ^ f := by
  have least := h.least
  exact lt_of_exponent_lt (by exact_mod_cast h.high) (h'.full.resolve_right (by omega)) less

/-- **Exponents first and mantissas second** is the order of the values. -/
theorem compare_eq (h : Fits m e) (h' : Fits n f) :
    (compare e f).then (compare m n) = compare ((m : ℚ) * 2 ^ e) (n * 2 ^ f) := by
  rcases lt_trichotomy e f with less | rfl | more
  · rw [compare_lt_iff_lt.mpr less, compare_lt_iff_lt.mpr (h.lt_of_lt h' less)]
    rfl
  · have scaled : StrictMono fun k : ℕ => (k : ℚ) * 2 ^ e := fun _ _ less =>
      mul_lt_mul_of_pos_right (by exact_mod_cast less) (by positivity)
    rw [compare_eq_iff_eq.mpr rfl, Ordering.then, ← compare_map scaled]
  · rw [compare_gt_iff_gt.mpr more, compare_gt_iff_gt.mpr (h'.lt_of_lt h more)]
    rfl

end Fits

/-- An unpacked double whose mantissa and exponent are in normal form. -/
def Canonical : UnpackedFloat → Prop
  | .finite _ m e _ => Fits m e
  | .notANumber | .infinity _ | .zero _ => True

/-- What is unpacked from a bit pattern is in normal form. -/
theorem canonical_unpack (b : BitVec Format.binary64.numBits) :
    Canonical (UnpackedFloat.unpack Format.binary64 b) := by
  have fields := ofUnpacked_unpack b
  cases u : UnpackedFloat.unpack Format.binary64 b with
  | infinity s | notANumber | zero s => trivial
  | finite s m e pos =>
    rw [u] at fields
    simp only [View.ofUnpacked] at fields
    show Fits m e
    split at fields
    · split at fields <;> cases fields
    · -- A zero exponent field has no hidden bit and the least exponent.
      split at fields
      all_goals
        injection fields with _ mantissa exponent
        exact ⟨by omega, by omega, by omega⟩

/-! ## Comparison -/

theorem coe_lt_top (p : ℚ) : (p : WithBotTop ℚ) < ⊤ :=
  WithBot.coe_lt_coe.mpr (WithTop.coe_lt_top p)

theorem bot_lt_coe (p : ℚ) : ⊥ < (p : WithBotTop ℚ) :=
  WithBot.bot_lt_coe _

theorem compare_coe (p q : ℚ) : compare (p : WithBotTop ℚ) q = compare p q :=
  compare_map WithBotTop.coe_strictMono p q

theorem compare_neg (p q : ℚ) : compare (-p) (-q) = (compare p q).swap := by
  rw [← cmp_eq_compare, ← cmp_eq_compare, cmp_swap]
  exact StrictAnti.cmp_map_eq (fun _ _ => neg_lt_neg) p q

/-- **Unpacked doubles compare as their values**, where they are in normal form. -/
theorem compare_unpacked {u v : UnpackedFloat} (hu : Canonical u) (hv : Canonical v)
    {a b : WithBotTop ℚ} (ha : (View.ofUnpacked u).extended? = some a)
    (hb : (View.ofUnpacked v).extended? = some b) : u.compare v = some (compare a b) := by
  have less {a b : WithBotTop ℚ} (h : a < b) : some Ordering.lt = some (compare a b) := by
    rw [compare_lt_iff_lt.mpr h]
  have more {a b : WithBotTop ℚ} (h : b < a) : some Ordering.gt = some (compare a b) := by
    rw [compare_gt_iff_gt.mpr h]
  have same (a : WithBotTop ℚ) : some Ordering.eq = some (compare a a) := by
    rw [compare_eq_iff_eq.mpr rfl]
  have above {m : ℕ} {e : ℤ} (pos : 0 < m) : (0 : ℚ) < 1 * (m * 2 ^ e) := by positivity
  have below {m : ℕ} {e : ℤ} (pos : 0 < m) : -1 * (m * 2 ^ e) < (0 : ℚ) := by
    rw [neg_one_mul]
    exact neg_neg_of_pos (by positivity)
  cases u with
  | notANumber => cases ha
  | infinity s =>
    cases v with
    | notANumber => cases hb
    | infinity t =>
      cases ha; cases hb; cases s <;> cases t
      exacts [same _, less bot_lt_top, more bot_lt_top, same _]
    | zero t | finite t n f pos =>
      cases ha; cases hb; cases s
      exacts [less (bot_lt_coe _), more (coe_lt_top _)]
  | zero s =>
    cases v with
    | notANumber => cases hb
    | infinity t =>
      cases ha; cases hb; cases t
      exacts [more (bot_lt_coe _), less (coe_lt_top _)]
    | zero t =>
      cases ha; cases hb
      simp only [Nat.cast_zero, zero_mul, mul_zero]
      exact same _
    | finite t n f pos =>
      cases ha; cases hb
      simp only [Nat.cast_zero, zero_mul, mul_zero]
      cases t
      exacts [more (WithBotTop.coe_lt_coe.mpr (below pos)),
        less (WithBotTop.coe_lt_coe.mpr (above pos))]
  | finite s m e pos =>
    cases v with
    | notANumber => cases hb
    | infinity t =>
      cases ha; cases hb; cases t
      exacts [more (bot_lt_coe _), less (coe_lt_top _)]
    | zero t =>
      cases ha; cases hb
      simp only [Nat.cast_zero, zero_mul, mul_zero]
      cases s
      exacts [less (WithBotTop.coe_lt_coe.mpr (below pos)),
        more (WithBotTop.coe_lt_coe.mpr (above pos))]
    | finite t n f pos' =>
      cases ha; cases hb
      have magnitudes := Fits.compare_eq hu hv
      cases s <;> cases t
      · refine congrArg some (?_ : Ordering.swap _ = _)
        rw [magnitudes, compare_coe]
        simp only [beq_self_eq_true, if_true, neg_one_mul, compare_neg]
      · exact less (WithBotTop.coe_lt_coe.mpr ((below pos).trans (above pos')))
      · exact more (WithBotTop.coe_lt_coe.mpr ((below pos').trans (above pos)))
      · refine congrArg some ?_
        rw [magnitudes, compare_coe]
        simp

section

variable {x y : Number} {a b : WithBotTop ℚ}

theorem compare_eq (ha : extended? x = some a) (hb : extended? y = some b) :
    x.toModel.compare y.toModel = some (compare a b) := by
  rw [extended?, view_eq_unpack] at ha hb
  exact compare_unpacked (canonical_unpack _) (canonical_unpack _) ha hb

/-- **Less:** a number is less than another one if its value is. -/
theorem lt_iff (ha : extended? x = some a) (hb : extended? y = some b) : x < y ↔ a < b := by
  have decided : x < y ↔ (x.toModel.compare y.toModel == some .lt) = true := decide_eq_true_iff
  rw [decided, compare_eq ha hb]
  simp only [beq_iff_eq, Option.some.injEq]
  exact compare_lt_iff_lt

/-- **At most:** a number is at most another one if its value is. -/
theorem le_iff (ha : extended? x = some a) (hb : extended? y = some b) : x ≤ y ↔ a ≤ b := by
  have decided : x ≤ y ↔ (x.toModel.compare y.toModel).any (·.isLE) = true := decide_eq_true_iff
  rw [decided, compare_eq ha hb]
  exact Ordering.isLE_iff_ne_gt.trans compare_le_iff_le

/-- **Equal:** a number is equal to another one if its value is. -/
theorem beq_iff (ha : extended? x = some a) (hb : extended? y = some b) :
    (x == y) = true ↔ a = b := by
  show (x.toModel.compare y.toModel == some .eq) = true ↔ _
  rw [compare_eq ha hb]
  simp

end

end Number

end Scriptlet
