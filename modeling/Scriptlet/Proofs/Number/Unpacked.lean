import Mathlib
import Scriptlet.Proofs.Number.Value

/-!
# Numbers and the model of doubles

What is read from the bits of a double is what the model of doubles unpacks from them, and the
conversion of a count to a double is exact: no rounding takes place up to `maxExact`.

## Main definitions

* `Number.View.ofUnpacked` — an unpacked double as sign, mantissa and exponent

## Main statements

* `Number.view_eq_unpack` — the two readings of a double agree
* `Number.round_exact` — a double that has 53 bits before a shift comes out of rounding unchanged
* `Number.value?_ofMagnitude` — the value of a converted count is that count
-/

namespace Scriptlet

namespace Number

open Float.Model Float.Model.UnpackedFloat

/-! ## The two readings -/

/-- An unpacked double as sign, mantissa and exponent. -/
def View.ofUnpacked : UnpackedFloat → View
  | .notANumber => .nan
  | .infinity sign => .infinite (sign == .negative)
  | .zero sign => .finite (sign == .negative) 0 (-1074)
  | .finite sign m e _ => .finite (sign == .negative) m e

theorem toNat_append_one {n : Nat} (b : BitVec n) : (1#1 ++ b).toNat = 2 ^ n + b.toNat := by
  rw [BitVec.toNat_append, ← Nat.shiftLeft_add_eq_or_of_lt b.isLt]
  simp [Nat.shiftLeft_eq]

theorem toNat_unpackMantissa (b : BitVec Format.binary64.numBits) :
    (unpackMantissa b).toNat = b.toNat % 2 ^ 52 := by
  simp [unpackMantissa]

theorem toNat_unpackExponent (b : BitVec Format.binary64.numBits) :
    (unpackExponent b).toNat = b.toNat / 2 ^ 52 % 2 ^ 11 := by
  simp [unpackExponent, Nat.shiftRight_eq_div_pow]

theorem toNat_unpackSign (b : BitVec Format.binary64.numBits) :
    (unpackSign b).toNat = b.toNat / 2 ^ 63 := by
  have bound : b.toNat < 2 ^ 64 := b.isLt
  simp only [unpackSign, BitVec.toNat_cast, BitVec.extractLsb_toNat, Nat.shiftRight_eq_div_pow]
  omega

theorem sign_ofBitVec (b : BitVec 1) : (Sign.ofBitVec b == .negative) = (b.toNat == 1) := by
  have cases : b = 0#1 ∨ b = 1#1 := by
    revert b
    decide
  obtain rfl | rfl := cases <;> rfl

/-- What the model of doubles unpacks from a bit pattern, in terms of its fields. -/
theorem ofUnpacked_unpack (b : BitVec Format.binary64.numBits) :
    View.ofUnpacked (UnpackedFloat.unpack Format.binary64 b) =
      if b.toNat / 2 ^ 52 % 2 ^ 11 = 2 ^ 11 - 1 then
        if b.toNat % 2 ^ 52 = 0 then .infinite (b.toNat / 2 ^ 63 == 1) else .nan
      else if b.toNat / 2 ^ 52 % 2 ^ 11 = 0 then
        .finite (b.toNat / 2 ^ 63 == 1) (b.toNat % 2 ^ 52) (-1074)
      else
        .finite (b.toNat / 2 ^ 63 == 1) (2 ^ 52 + b.toNat % 2 ^ 52)
          (((b.toNat / 2 ^ 52 % 2 ^ 11 : Nat) : Int) - 1075) := by
  have field := toNat_unpackExponent b
  have fraction := toNat_unpackMantissa b
  have sign : (Sign.ofBitVec (unpackSign b) == .negative) = (b.toNat / 2 ^ 63 == 1) := by
    rw [sign_ofBitVec, toNat_unpackSign]
  have ones : unpackExponent b = -1#_ ↔ b.toNat / 2 ^ 52 % 2 ^ 11 = 2 ^ 11 - 1 := by
    rw [← BitVec.toNat_inj, field, BitVec.neg_one_eq_allOnes, BitVec.toNat_allOnes]
  have least : unpackExponent b = 0#_ ↔ b.toNat / 2 ^ 52 % 2 ^ 11 = 0 := by
    rw [← BitVec.toNat_inj, field, BitVec.toNat_zero]
  have none : unpackMantissa b = 0#_ ↔ b.toNat % 2 ^ 52 = 0 := by
    rw [← BitVec.toNat_inj, fraction, BitVec.toNat_zero]
  unfold UnpackedFloat.unpack
  simp only [ones, least, none]
  split
  · split
    · simp only [View.ofUnpacked, sign]
    · rfl
  · split
    · next zero =>
      split
      · next empty => simp only [View.ofUnpacked, sign, empty]
      · simp only [View.ofUnpacked, sign, field, fraction, zero]
        rfl
    · simp only [View.ofUnpacked, sign, toNat_append_one, fraction, field]
      rfl

/-- **The two readings agree.**  What is read from the bits of a double is what the model of
doubles unpacks from them. -/
theorem view_eq_unpack (x : Number) : view x = .ofUnpacked x.toModel.unpack :=
  (ofUnpacked_unpack x.toModel.toBits.toBitVec).symm

/-! ## Rounding what is exact -/

/-- The number of bits of a shifted mantissa. -/
theorem log2_mul_two_pow {m : Nat} (positive : m ≠ 0) (k : Nat) :
    (m * 2 ^ k).log2 = m.log2 + k := by
  rw [Nat.log2_eq_iff (Nat.mul_ne_zero positive (Nat.two_pow_pos k).ne'), Nat.pow_add,
    Nat.add_right_comm, Nat.pow_add]
  exact ⟨Nat.mul_le_mul_right _ (Nat.log2_self_le positive),
    Nat.mul_lt_mul_of_pos_right Nat.lt_log2_self (Nat.two_pow_pos k)⟩

/-- **Normal mantissa and exponent** of a double: 53 bits, and an exponent in reach. -/
structure Normal (m : Nat) (e : Int) : Prop where
  /-- The highest of the 53 bits is set. -/
  low : 2 ^ 52 ≤ m
  /-- There are no further bits. -/
  high : m < 2 ^ 53
  /-- The exponent is at least the least one. -/
  least : -1074 ≤ e
  /-- The exponent is at most the greatest one. -/
  greatest : e ≤ 971

namespace Normal

variable {m : Nat} {e : Int}

theorem pos (h : Normal m e) : 0 < m := Nat.lt_of_lt_of_le (Nat.two_pow_pos 52) h.low

theorem log2_eq (h : Normal m e) : m.log2 = 52 :=
  (Nat.log2_eq_iff h.pos.ne').mpr ⟨h.low, h.high⟩

/-- The exponent that a shifted mantissa is brought to. -/
theorem targetExponent_eq (h : Normal m e) (j : Nat) :
    Format.binary64.targetExponent (totalExponent (m * 2 ^ j) (e - j)) = e := by
  have least := h.least
  simp only [Format.targetExponent, Format.minExponent, Format.mantissaBits, totalExponent,
    log2_mul_two_pow h.pos.ne', h.log2_eq]
  omega

end Normal

/-- Zeros that were shifted in are shifted out again, and nothing is lost. -/
theorem shiftRight_exact (m j : Nat) :
    (⟨m * 2 ^ j, false, false⟩ : ExtendedMantissa) >>> j = ⟨m, false, false⟩ := by
  change j.repeat ExtendedMantissa.shiftRightOne _ = _
  induction j generalizing m with
  | zero => simp [Nat.repeat]
  | succ j ih =>
    have shifted : m * 2 ^ (j + 1) = m * 2 * 2 ^ j := by ring
    rw [Nat.repeat, shifted, ih (m * 2)]
    simp [ExtendedMantissa.shiftRightOne]

/-- Shifting to the exponent of a double gives its mantissa back. -/
theorem shiftToTargetExponent_exact {m : Nat} {e : Int} (h : Normal m e) (j : Nat) :
    shiftToTargetExponent Format.binary64 (m * 2 ^ j) (e - j) .exact = (⟨m, false, false⟩, e) := by
  simp only [shiftToTargetExponent, shiftToExponent, h.targetExponent_eq j,
    ExtendedMantissa.ofMantissaAndAccuracy]
  have amount : (e - (e - j)).toNat = j := by omega
  rw [amount, shiftRight_exact]
  congr 1
  omega

/-- **A double that was shifted comes out of rounding unchanged.** -/
theorem round_exact {m : Nat} {e : Int} (h : Normal m e) (sign : Sign) (j : Nat) :
    roundWithAccuracy Format.binary64 sign (m * 2 ^ j) (e - j) .exact = .finite sign m e h.pos := by
  have again := shiftToTargetExponent_exact h 0
  simp only [Nat.pow_zero, Nat.mul_one, Nat.cast_zero, sub_zero] at again
  simp only [roundWithAccuracy, shiftToTargetExponent_exact h j, ExtendedMantissa.roundedMantissa,
    ExtendedMantissa.accuracy, Accuracy.roundToNearestEven, again, h.pos.ne']
  simp

/-- **A normal double is packed and unpacked without loss.** -/
theorem unpack_pack {m : Nat} {e : Int} (h : Normal m e) (sign : Sign) :
    UnpackedFloat.unpack Format.binary64
      (UnpackedFloat.pack Format.binary64 (.finite sign m e h.pos)) = .finite sign m e h.pos := by
  have low := h.low
  have high := h.high
  have least := h.least
  have greatest := h.greatest
  obtain ⟨field, biased⟩ : ∃ field : Nat, e + 1075 = field := ⟨(e + 1075).toNat, by omega⟩
  have packed : UnpackedFloat.pack Format.binary64 (.finite sign m e h.pos) =
      packComponents Format.binary64 sign (BitVec.ofNat 11 field) (BitVec.ofNat 52 m) := by
    have sum :
        (e + Format.binary64.exponentBias + Format.binary64.mantissaBitsWithoutImplicit).toNat =
          field := by
      simp only [Format.exponentBias]
      omega
    simp only [UnpackedFloat.pack, sum, h.log2_eq, Format.mantissaBits]
    rw [if_neg (by omega), if_true]
  have exponent : (BitVec.ofNat 11 field).toNat = field := by
    rw [BitVec.toNat_ofNat, Nat.mod_eq_of_lt (by omega)]
  have mantissa : (1#1 ++ BitVec.ofNat 52 m).toNat = m := by
    rw [toNat_append_one, BitVec.toNat_ofNat]
    omega
  have notOnes : BitVec.ofNat 11 field ≠ -1#11 := by
    rw [Ne, ← BitVec.toNat_inj, exponent, BitVec.neg_one_eq_allOnes, BitVec.toNat_allOnes]
    omega
  have notZero : BitVec.ofNat 11 field ≠ 0#11 := by
    rw [Ne, ← BitVec.toNat_inj, exponent, BitVec.toNat_zero]
    omega
  rw [packed]
  simp only [UnpackedFloat.unpack, unpackExponent_packComponents, unpackMantissa_packComponents,
    unpackSign_packComponents, Sign.ofBitVec_toBitVec, notOnes, notZero, if_false, mantissa,
    exponent]
  congr 1
  simp only [Format.exponentBias]
  omega

/-! ## Conversion of counts -/

/-- A count with as many zeros behind it as make 53 bits. -/
theorem normal_count {n k : Nat} (positive : n ≠ 0) (bits : n.log2 + k = 52) :
    Normal (n * 2 ^ k) (-k) := by
  constructor
  · calc 2 ^ 52 = 2 ^ n.log2 * 2 ^ k := by rw [← Nat.pow_add, bits]
      _ ≤ n * 2 ^ k := Nat.mul_le_mul_right _ (Nat.log2_self_le positive)
  · calc n * 2 ^ k < 2 ^ (n.log2 + 1) * 2 ^ k :=
          Nat.mul_lt_mul_of_pos_right Nat.lt_log2_self (Nat.two_pow_pos _)
      _ = 2 ^ 53 := by rw [← Nat.pow_add, Nat.add_right_comm, bits]
  · omega
  · omega

/-- The double of a count, before it is scaled. -/
theorem unpack_toFloat {n k : Nat} (positive : n ≠ 0) (bits : n.log2 + k = 52) :
    n.toUInt64.toFloat.toModel.unpack =
      .finite .positive (n * 2 ^ k) (-k) (normal_count positive bits).pos := by
  have normal := normal_count positive bits
  have word : n.toUInt64.toNat = n := by
    have : n < 2 ^ 53 := (Nat.log2_lt positive).mp (by omega)
    exact Nat.mod_eq_of_lt (by omega)
  have target : Format.binary64.targetExponent (totalExponent n 0) = -k := by
    simp only [Format.targetExponent, Format.minExponent, Format.mantissaBits, totalExponent]
    omega
  have decreased : decreaseExponent n 0 (-k) = (n * 2 ^ k, -(k : Int)) := by
    simp [decreaseExponent, Nat.shiftLeft_eq]
  have rounded := round_exact normal .positive 0
  have compared : compare (n : Int) 0 = .gt := by
    rw [Int.compare_eq_gt]
    omega
  have converted : UnpackedFloat.ofUInt64 Format.binary64 n.toUInt64 =
      .finite .positive (n * 2 ^ k) (-k) normal.pos := by
    simp only [UnpackedFloat.ofUInt64, UnpackedFloat.ofNat, UnpackedFloat.ofInt,
      UnpackedFloat.normalize, UnpackedFloat.round, compared, word, Int.toNat_natCast, target,
      decreased]
    simpa using rounded
  change UnpackedFloat.unpack _ (UnpackedFloat.pack _ (UnpackedFloat.ofUInt64 _ _)) = _
  rw [converted, unpack_pack normal]

/-- The double one. -/
theorem unpack_one : (Float.ofBits 0x3FF0000000000000).toModel.unpack =
    .finite .positive (2 ^ 52) (-52) (Nat.two_pow_pos 52) := by
  rfl

/-- A converted count, read from its bits. -/
theorem view_ofMagnitude {n k : Nat} (positive : n ≠ 0) (bits : n.log2 + k = 52) :
    view (ofMagnitude false n) = .finite false (n * 2 ^ k) (-k) := by
  have normal := normal_count positive bits
  have small : n < 2 ^ 53 := (Nat.log2_lt positive).mp (by omega)
  have product : ofMagnitude false n = n.toUInt64.toFloat * Float.ofBits 0x3FF0000000000000 := by
    simp only [ofMagnitude, Float.ofScientific]
    rw [dif_pos ⟨small, Nat.zero_le _⟩]
    rfl
  have scaled : UnpackedFloat.mul Format.binary64 n.toUInt64.toFloat.toModel.unpack
      (Float.ofBits 0x3FF0000000000000).toModel.unpack =
      .finite .positive (n * 2 ^ k) (-k) normal.pos := by
    rw [unpack_toFloat positive bits, unpack_one]
    exact round_exact normal .positive 52
  rw [product, view_eq_unpack]
  change View.ofUnpacked
    (UnpackedFloat.unpack _ (UnpackedFloat.pack _ (UnpackedFloat.mul _ _ _))) = _
  rw [scaled, unpack_pack normal]
  rfl

/-- **Conversion is exact.** -/
theorem value?_ofMagnitude {n : Nat} (small : n ≤ maxExact) :
    value? (ofMagnitude false n) = some ↑n := by
  by_cases zero : n = 0
  · subst zero
    have nothing : view (ofMagnitude false 0) = .finite false 0 (-1074) := by decide +kernel
    rw [value?, nothing]
    simp [View.value?]
  · obtain ⟨k, bits⟩ : ∃ k, n.log2 + k = 52 := by
      have : n.log2 < 53 := (Nat.log2_lt zero).mpr (by simp [maxExact] at small; omega)
      exact ⟨52 - n.log2, by omega⟩
    rw [value?, view_ofMagnitude zero bits]
    simp [View.value?]

end Number

end Scriptlet
