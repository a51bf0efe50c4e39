import Scriptlet.Proofs.Number.Order

/-!
# Sums of numbers

The sum of two doubles is rounded.  Of the rounding only one thing matters here: on its way from
the exact sum to the rounded one it passes no value that a double has.  So it keeps the order to
all doubles, and a sum that a double has comes out exact.

## Main definitions

* `Number.Representable` — values that doubles have
* `Number.roundOff` — a mantissa whose last bits were rounded away
* `Number.grid` — the exponent that a value is rounded to
* `Number.RoundsTo` — a result that no value of a double separates from the exact one

## Main statements

* `Number.roundOff_between` — rounding a mantissa passes no representable value
* `Number.round_eq` — so does rounding to the format
* `Number.extended?_add` — and so does the sum of two doubles
* `Number.value?_add` — a representable sum is exact

## Design decisions

* `RoundsTo` does not tell ties, nor which of two neighbours is the nearer one.  It holds of every
  way of rounding that is monotone and leaves doubles as they are.
* An overflow is a rounding as well: the end of the scale lies beyond all doubles.
-/

namespace Scriptlet

namespace Number

open Float.Model Float.Model.UnpackedFloat

/-! ## Mantissas -/

theorem mantissa_shiftRight (em : ExtendedMantissa) (j : ℕ) :
    (em >>> j).mantissa = em.mantissa / 2 ^ j := by
  change (j.repeat ExtendedMantissa.shiftRightOne em).mantissa = _
  induction j with
  | zero => simp [Nat.repeat]
  | succ j ih =>
    rw [Nat.repeat, ExtendedMantissa.shiftRightOne, ih, Nat.div_div_eq_div_mul, Nat.pow_succ]

theorem roundedMantissa_bounds (em : ExtendedMantissa) :
    em.mantissa ≤ em.roundedMantissa ∧ em.roundedMantissa ≤ em.mantissa + 1 := by
  obtain ⟨m, round, sticky⟩ := em
  cases round <;> cases sticky <;>
    simp only [ExtendedMantissa.roundedMantissa, ExtendedMantissa.accuracy,
      Accuracy.roundToNearestEven] <;> omega

/-- **Rounding off** the last `j` bits of a mantissa. -/
def roundOff (m j : ℕ) : ℕ := ((⟨m, false, false⟩ : ExtendedMantissa) >>> j).roundedMantissa

theorem roundOff_mul (n j : ℕ) : roundOff (n * 2 ^ j) j = n := by
  rw [roundOff, shiftRight_exact]
  rfl

section

variable {m j n : ℕ}

theorem le_roundOff (h : n * 2 ^ j ≤ m) : n ≤ roundOff m j := by
  have floor : n ≤ m / 2 ^ j := (Nat.le_div_iff_mul_le (Nat.two_pow_pos j)).mpr h
  have bounds := (roundedMantissa_bounds ((⟨m, false, false⟩ : ExtendedMantissa) >>> j)).1
  rw [mantissa_shiftRight] at bounds
  exact floor.trans bounds

theorem roundOff_le (h : m ≤ n * 2 ^ j) : roundOff m j ≤ n := by
  rcases Nat.eq_or_lt_of_le h with rfl | less
  · rw [roundOff_mul]
  · have floor : m / 2 ^ j < n := (Nat.div_lt_iff_lt_mul (Nat.two_pow_pos j)).mpr less
    have bounds := (roundedMantissa_bounds ((⟨m, false, false⟩ : ExtendedMantissa) >>> j)).2
    rw [mantissa_shiftRight] at bounds
    exact bounds.trans floor

end

section

variable {m j : ℕ} {n : ℤ}

theorem int_le_roundOff (h : n * 2 ^ j ≤ m) : n ≤ roundOff m j := by
  rcases le_total n 0 with negative | nonneg
  · omega
  · lift n to ℕ using nonneg
    exact_mod_cast le_roundOff (by exact_mod_cast h)

theorem roundOff_le_int (h : m ≤ n * 2 ^ j) : roundOff m j ≤ n := by
  have nonneg : 0 ≤ n := by
    by_contra negative
    have : n * 2 ^ j < 0 := mul_neg_of_neg_of_pos (by omega) (by positivity)
    omega
  lift n to ℕ using nonneg
  exact_mod_cast roundOff_le (by exact_mod_cast h)

end

/-! ## Values that doubles have -/

/-- **Representable:** a value of 53 bits with an exponent in reach. -/
def Representable (r : ℚ) : Prop :=
  ∃ n f : ℤ, |n| < 2 ^ 53 ∧ -1074 ≤ f ∧ f ≤ 971 ∧ r = n * 2 ^ f

theorem Representable.neg {r : ℚ} (h : Representable r) : Representable (-r) := by
  obtain ⟨n, f, small, least, greatest, rfl⟩ := h
  exact ⟨-n, f, by rwa [abs_neg], least, greatest, by push_cast; ring⟩

/-- Integers up to `2 ^ 53` are representable, that one included. -/
theorem representable_int {n : ℤ} (h : |n| ≤ 2 ^ 53) : Representable n := by
  rcases lt_or_eq_of_le h with less | same
  · exact ⟨n, 0, less, by omega, by omega, by simp⟩
  · rcases (abs_eq (by norm_num)).mp same with rfl | rfl
    · exact ⟨1, 53, by norm_num, by omega, by omega, by norm_num⟩
    · exact ⟨-1, 53, by norm_num, by omega, by omega, by norm_num⟩

theorem representable_of_parts {m : ℕ} {e : ℤ} (high : m < 2 ^ 53) (least : -1074 ≤ e)
    (greatest : e ≤ 971) (negative : Bool) :
    Representable ((if negative then -1 else 1) * (m * 2 ^ e)) := by
  have magnitude : Representable (m * 2 ^ e) :=
    ⟨m, e, by rw [Nat.abs_cast]; exact_mod_cast high, least, greatest, by rw [Int.cast_natCast]⟩
  cases negative with
  | false => simpa using magnitude
  | true => simpa using magnitude.neg

/-- The value of a double is representable. -/
theorem representable_of_value? {x : Number} {p : ℚ} (h : value? x = some p) :
    Representable p := by
  have fields := ofUnpacked_unpack x.toModel.toBits.toBitVec
  rw [value?, view_eq_unpack, Float.Model.unpack, fields] at h
  split at h
  · split at h <;> cases h
  · split at h
    all_goals
      cases h
      exact representable_of_parts (by omega) (by omega) (by omega) _

/-- An overflown value is larger than all that doubles have. -/
theorem Representable.lt_of_overflow {r : ℚ} (h : Representable r) {m : ℕ} {e : ℤ}
    (fits : Fits m e) (beyond : 971 < e) : r < m * 2 ^ e := by
  obtain ⟨n, f, small, -, greatest, rfl⟩ := h
  exact lt_of_exponent_lt (by exact_mod_cast lt_of_abs_lt small)
    (fits.full.resolve_right (by omega)) (by omega)

/-! ## Rounding to the format -/

/-- The exponent that a value is rounded to. -/
def grid (m : ℕ) (e : ℤ) : ℤ := Format.binary64.targetExponent (totalExponent m e)

theorem grid_eq (m : ℕ) (e : ℤ) : grid m e = max (m.log2 + e - 52) (-1074) := by
  simp only [grid, Format.targetExponent, totalExponent, Format.mantissaBits, Format.minExponent]
  omega

theorem grid_shift {m : ℕ} (positive : m ≠ 0) (e : ℤ) (k : ℕ) :
    grid (m * 2 ^ k) (e - k) = grid m e := by
  rw [grid_eq, grid_eq, log2_mul_two_pow positive]
  push_cast
  omega

section

variable {m : ℕ} {e : ℤ} {j : ℕ} (positive : m ≠ 0) (goal : grid m e = e + j)

include positive goal

/-- Above the least exponent, all of the 53 bits on the grid are needed. -/
theorem le_of_grid (above : -1074 < e + j) : 2 ^ 52 * 2 ^ j ≤ m := by
  rw [grid_eq] at goal
  rw [← Nat.pow_add, show 52 + j = m.log2 by omega]
  exact Nat.log2_self_le positive

/-- What is rounded off to the grid has 53 bits, or 54 with a carry. -/
theorem roundOff_bounds : roundOff m j ≤ 2 ^ 53 ∧ (2 ^ 52 ≤ roundOff m j ∨ e + j = -1074) := by
  have exponent := goal
  rw [grid_eq] at exponent
  have reach : m ≤ 2 ^ 53 * 2 ^ j := by
    rw [← Nat.pow_add]
    exact Nat.lt_log2_self.le.trans (Nat.pow_le_pow_right (by omega) (by omega))
  refine ⟨roundOff_le reach, ?_⟩
  by_cases least : e + j = -1074
  · exact .inr least
  · exact .inl (le_roundOff (le_of_grid positive goal (by omega)))

/-- **Rounding to the grid passes no representable value.** -/
theorem roundOff_between {r : ℚ} (h : Representable r) :
    (r ≤ m * 2 ^ e → r ≤ roundOff m j * 2 ^ (e + j)) ∧
      (m * 2 ^ e ≤ r → roundOff m j * 2 ^ (e + j) ≤ r) := by
  obtain ⟨n, f, small, least, -, rfl⟩ := h
  have unit : (0 : ℚ) < 2 ^ e := by positivity
  have step : (0 : ℚ) < 2 ^ (e + j) := by positivity
  have shift (k : ℕ) : (2 : ℚ) ^ (e + k) = 2 ^ k * 2 ^ e := by
    rw [zpow_add₀ (by norm_num), zpow_natCast, mul_comm]
  rcases lt_or_ge f (e + j) with finer | coarser
  · -- A representable value off the grid is smaller than anything with 53 bits on the grid.
    have above := le_of_grid positive goal (by omega)
    have below (k : ℕ) (full : 2 ^ 52 ≤ k) : (n : ℚ) * 2 ^ f < k * 2 ^ (e + j) :=
      lt_of_exponent_lt (by exact_mod_cast lt_of_abs_lt small) full finer
    constructor
    · intro _
      exact (below _ (le_roundOff above)).le
    · intro passed
      have exact : ((2 ^ 52 : ℕ) : ℚ) * 2 ^ (e + j) ≤ m * 2 ^ e := by
        rw [shift, ← mul_assoc]
        exact mul_le_mul_of_nonneg_right (by exact_mod_cast above) unit.le
      exact absurd (exact.trans passed) (not_le.mpr (below _ le_rfl))
  · -- A representable value on the grid is an integer there.
    obtain ⟨k, rfl⟩ : ∃ k : ℕ, f = e + j + k := ⟨(f - (e + j)).toNat, by omega⟩
    have whole : (n : ℚ) * 2 ^ (e + j + k) = ((n * 2 ^ k : ℤ) : ℚ) * 2 ^ (e + j) := by
      rw [show e + (j : ℤ) + k = e + ((j + k : ℕ) : ℤ) by push_cast; ring, shift, shift]
      push_cast
      ring
    have scaled : ((n * 2 ^ k : ℤ) : ℚ) * 2 ^ (e + j) = ((n * 2 ^ k * 2 ^ j : ℤ) : ℚ) * 2 ^ e := by
      rw [shift]
      push_cast
      ring
    constructor
    · intro below
      rw [whole, scaled, mul_le_mul_iff_left₀ unit] at below
      rw [whole, mul_le_mul_iff_left₀ step]
      exact_mod_cast int_le_roundOff (by exact_mod_cast below)
    · intro above
      rw [whole, scaled, mul_le_mul_iff_left₀ unit] at above
      rw [whole, mul_le_mul_iff_left₀ step]
      exact_mod_cast roundOff_le_int (by exact_mod_cast above)

end

/-- The double of a mantissa and an exponent, where a zero has no exponent. -/
def ofParts (sign : Sign) (m : ℕ) (e : ℤ) : UnpackedFloat :=
  if h : m = 0 then .zero sign else .finite sign m e (Nat.pos_of_ne_zero h)

theorem shiftToTargetExponent_eq {m : ℕ} {e : ℤ} {j : ℕ} (goal : max e (grid m e) = e + j) :
    shiftToTargetExponent Format.binary64 m e .exact =
      ((⟨m, false, false⟩ : ExtendedMantissa) >>> j, e + j) := by
  have amount : (grid m e - e).toNat = j := by omega
  simp only [shiftToTargetExponent, shiftToExponent, ExtendedMantissa.ofMantissaAndAccuracy]
  rw [← grid, amount]

/-- Rounding a value that is at least as fine as the grid. -/
theorem roundWithAccuracy_eq {m : ℕ} {e : ℤ} (sign : Sign) {j : ℕ} (positive : m ≠ 0)
    (goal : grid m e = e + j) :
    ∃ m' e', Fits m' e' ∧ (m' : ℚ) * 2 ^ e' = roundOff m j * 2 ^ (e + j) ∧
      roundWithAccuracy Format.binary64 sign m e .exact = ofParts sign m' e' := by
  have exponent := goal
  rw [grid_eq] at exponent
  obtain ⟨most, full⟩ := roundOff_bounds positive goal
  have first := shiftToTargetExponent_eq (m := m) (e := e) (j := j) (by omega)
  have rounded : ((⟨m, false, false⟩ : ExtendedMantissa) >>> j).roundedMantissa = roundOff m j :=
    rfl
  simp only [roundWithAccuracy, first, rounded]
  rcases Nat.lt_or_eq_of_le most with fits | carry
  · have short : (roundOff m j).log2 ≤ 52 := by
      by_cases zero : roundOff m j = 0
      · rw [zero]
        decide
      · have := (Nat.log2_lt zero).mpr fits
        omega
    have second := shiftToTargetExponent_eq (m := roundOff m j) (e := e + j) (j := 0)
      (by rw [grid_eq]; omega)
    refine ⟨roundOff m j, e + j, ⟨fits, by omega, full⟩, rfl, ?_⟩
    simp only [second, mantissa_shiftRight, Nat.pow_zero, Nat.div_one, Nat.cast_zero, add_zero]
    rfl
  · -- The mantissa was rounded up to 54 bits, the last one of which is zero.
    have long : (roundOff m j).log2 = 53 := by rw [carry, Nat.log2_two_pow]
    have second := shiftToTargetExponent_eq (m := roundOff m j) (e := e + j) (j := 1)
      (by rw [grid_eq]; omega)
    refine ⟨2 ^ 52, e + j + 1, ⟨by omega, by omega, .inl le_rfl⟩, ?_, ?_⟩
    · rw [carry, zpow_add_one₀ (by norm_num)]
      push_cast
      ring
    · rw [carry] at second
      simp only [carry, second, mantissa_shiftRight]
      rfl

/-- **Rounding to the format** gives a normal form, and passes no representable value. -/
theorem round_eq {m : ℕ} {e : ℤ} (sign : Sign) (positive : m ≠ 0) :
    ∃ m' e', Fits m' e' ∧ UnpackedFloat.round Format.binary64 sign m e = ofParts sign m' e' ∧
      ∀ r, Representable r →
        (r ≤ m * 2 ^ e → r ≤ m' * 2 ^ e') ∧ (m * 2 ^ e ≤ r → m' * 2 ^ e' ≤ r) := by
  -- A value that is coarser than the grid gets zeros behind it first.
  obtain ⟨k, j, goal, zeros⟩ : ∃ k j : ℕ, grid m e = e - k + j ∧ (e - grid m e).toNat = k :=
    ⟨(e - grid m e).toNat, (grid m e - e).toNat, by omega, rfl⟩
  have decreased : decreaseExponent m e (grid m e) = (m * 2 ^ k, e - k) := by
    simp only [decreaseExponent, zeros, Nat.shiftLeft_eq]
  have same : (m * 2 ^ k : ℕ) * (2 : ℚ) ^ (e - k) = m * 2 ^ e := by
    push_cast
    rw [mul_assoc, ← zpow_natCast, ← zpow_add₀ (by norm_num), add_sub_cancel]
  have nonzero : m * 2 ^ k ≠ 0 := Nat.mul_ne_zero positive (Nat.two_pow_pos k).ne'
  have reached : grid (m * 2 ^ k) (e - k) = e - k + j := by rw [grid_shift positive, goal]
  obtain ⟨m', e', fits, value, rounded⟩ := roundWithAccuracy_eq sign nonzero reached
  refine ⟨m', e', fits, ?_, ?_⟩
  · rw [← rounded, UnpackedFloat.round, ← grid, decreased]
  · intro r h
    rw [value, ← same]
    exact roundOff_between nonzero reached h

/-! ## Packing -/

/-- Packs a double and unpacks it again. -/
abbrev repack (u : UnpackedFloat) : UnpackedFloat :=
  UnpackedFloat.unpack Format.binary64 (UnpackedFloat.pack Format.binary64 u)

theorem repack_unpack (x : Number) : repack x.toModel.unpack = x.toModel.unpack :=
  congrArg (UnpackedFloat.unpack Format.binary64) (pack_unpack_of_valid x.toModel.valid)

/-- A subnormal double is packed and unpacked without loss. -/
theorem repack_subnormal {m : ℕ} (pos : 0 < m) (low : m < 2 ^ 52) (sign : Sign) :
    repack (.finite sign m (-1074) pos) = .finite sign m (-1074) pos := by
  have short : m.log2 < 52 := (Nat.log2_lt pos.ne').mpr low
  have mantissa : (BitVec.ofNat 52 m).toNat = m := by
    rw [BitVec.toNat_ofNat, Nat.mod_eq_of_lt low]
  have notZero : BitVec.ofNat 52 m ≠ 0#52 := by
    rw [Ne, ← BitVec.toNat_inj, mantissa, BitVec.toNat_zero]
    exact pos.ne'
  have packed : UnpackedFloat.pack Format.binary64 (.finite sign m (-1074) pos) =
      packComponents Format.binary64 sign 0#11 (BitVec.ofNat 52 m) := by
    have field : (-1074 + Format.binary64.exponentBias +
        Format.binary64.mantissaBitsWithoutImplicit : ℤ).toNat = 1 := rfl
    simp only [UnpackedFloat.pack, field, Format.mantissaBits]
    rw [if_neg (by omega), if_neg (by omega)]
  rw [repack, packed]
  simp only [UnpackedFloat.unpack, unpackExponent_packComponents, unpackMantissa_packComponents,
    unpackSign_packComponents, Sign.ofBitVec_toBitVec, notZero, mantissa]
  rfl

theorem repack_infinity (sign : Sign) : repack (.infinity sign) = .infinity sign := by
  rw [repack, UnpackedFloat.pack, packedInfinity]
  simp only [UnpackedFloat.unpack, unpackExponent_packComponents, unpackMantissa_packComponents,
    unpackSign_packComponents, Sign.ofBitVec_toBitVec]
  rfl

/-- A double with too large an exponent is packed as an infinity. -/
theorem repack_overflow {m : ℕ} {e : ℤ} (pos : 0 < m) (beyond : 971 < e) (sign : Sign) :
    repack (.finite sign m e pos) = .infinity sign := by
  have field : 2 ^ Format.binary64.exponentBits ≤ (e + Format.binary64.exponentBias +
      Format.binary64.mantissaBitsWithoutImplicit).toNat + 1 := by
    simp only [Format.exponentBias]
    omega
  rw [repack, UnpackedFloat.pack, if_pos field]
  exact repack_infinity sign

/-- **What packing does to a normal form:** nothing, unless the exponent is too large. -/
theorem ofUnpacked_repack {m : ℕ} {e : ℤ} (h : Fits m e) (sign : Sign) :
    View.ofUnpacked (repack (ofParts sign m e)) =
      if e ≤ 971 then .finite (sign == .negative) m e else .infinite (sign == .negative) := by
  obtain ⟨high, least, full⟩ := h
  by_cases zero : m = 0
  · subst zero
    obtain rfl : e = -1074 := by omega
    have packed : repack (.zero sign) = .zero sign := unpack_packedZero
    rw [ofParts, dif_pos rfl, packed, if_pos (by norm_num)]
    rfl
  rw [ofParts, dif_neg zero]
  split
  · next reach =>
    by_cases normal : 2 ^ 52 ≤ m
    · rw [repack, unpack_pack ⟨normal, high, least, reach⟩]
      rfl
    · obtain rfl : e = -1074 := by omega
      rw [repack_subnormal _ (by omega)]
      rfl
  · next beyond =>
    rw [repack_overflow _ (by omega)]
    rfl

/-! ## Rounded values -/

/-- **Rounding** of `q` to `l`: no value of a double lies between them. -/
def RoundsTo (q : ℚ) (l : WithBotTop ℚ) : Prop :=
  ∀ r : ℚ, Representable r → (r ≤ q → (r : WithBotTop ℚ) ≤ l) ∧ (q ≤ r → l ≤ (r : WithBotTop ℚ))

theorem roundsTo_self (q : ℚ) : RoundsTo q q := by
  intro r _
  simp

namespace RoundsTo

variable {q : ℚ}

theorem neg {p : ℚ} (h : RoundsTo q p) : RoundsTo (-q) (-p : ℚ) := by
  intro r representable
  have mirrored := h (-r) representable.neg
  rw [WithBotTop.coe_le_coe, WithBotTop.coe_le_coe] at mirrored ⊢
  exact ⟨fun below => le_neg_of_le_neg (mirrored.2 (le_neg_of_le_neg below)),
    fun above => neg_le_of_neg_le (mirrored.1 (neg_le_of_neg_le above))⟩

theorem neg_top (h : RoundsTo q ⊤) : RoundsTo (-q) ⊥ := by
  intro r representable
  refine ⟨fun below => ?_, fun _ => bot_le⟩
  have passed := (h (-r) representable.neg).2 (le_neg_of_le_neg below)
  exact absurd passed (not_le.mpr (coe_lt_top _))

/-- A representable value is not changed. -/
theorem eq_coe {l : WithBotTop ℚ} (h : RoundsTo q l) (representable : Representable q) : l = q :=
  le_antisymm ((h q representable).2 le_rfl) ((h q representable).1 le_rfl)

end RoundsTo

theorem roundsTo_round {m : ℕ} (positive : m ≠ 0) (e : ℤ) (sign : Sign) :
    ∃ l, (View.ofUnpacked
        (repack (UnpackedFloat.round Format.binary64 sign m e))).extended? = some l ∧
      RoundsTo (sign.apply m * 2 ^ e) l := by
  obtain ⟨m', e', fits, rounded, between⟩ := round_eq (e := e) sign positive
  rw [rounded, ofUnpacked_repack fits]
  split
  · have magnitude : RoundsTo (m * 2 ^ e) (m' * 2 ^ e' : ℚ) := by
      intro r representable
      rw [WithBotTop.coe_le_coe, WithBotTop.coe_le_coe]
      exact between r representable
    refine ⟨_, rfl, ?_⟩
    cases sign with
    | positive => simpa [Sign.apply] using magnitude
    | negative => simpa [Sign.apply] using magnitude.neg
  · next beyond =>
    have magnitude : RoundsTo (m * 2 ^ e) ⊤ := by
      intro r representable
      refine ⟨fun _ => le_top, fun above => ?_⟩
      have larger := representable.lt_of_overflow fits (not_le.mp beyond)
      exact absurd ((between r representable).2 above) (not_le.mpr larger)
    refine ⟨_, rfl, ?_⟩
    cases sign with
    | positive => simpa [Sign.apply] using magnitude
    | negative => simpa [Sign.apply] using magnitude.neg_top

theorem roundsTo_normalize (n e : ℤ) :
    ∃ l, (View.ofUnpacked
        (repack (UnpackedFloat.normalize Format.binary64 n e .positive))).extended? = some l ∧
      RoundsTo (n * 2 ^ e) l := by
  rw [UnpackedFloat.normalize]
  rcases lt_trichotomy n 0 with negative | rfl | positive
  · rw [compare_lt_iff_lt.mpr negative]
    have magnitude : ((-n).toNat : ℤ) = -n := Int.toNat_of_nonneg (by omega)
    have rounded := roundsTo_round (m := (-n).toNat) (by omega) e .negative
    rwa [Sign.apply, magnitude, neg_neg] at rounded
  · rw [compare_eq_iff_eq.mpr rfl]
    have packed := ofUnpacked_repack (m := 0) ⟨by norm_num, le_rfl, .inr rfl⟩ .positive
    rw [if_pos (by norm_num)] at packed
    exact ⟨_, congrArg View.extended? packed, by simpa using roundsTo_self 0⟩
  · rw [compare_gt_iff_gt.mpr positive]
    have magnitude : (n.toNat : ℤ) = n := Int.toNat_of_nonneg (by omega)
    have rounded := roundsTo_round (m := n.toNat) (by omega) e .positive
    rwa [Sign.apply, magnitude] at rounded

/-! ## Sums -/

/-- Bringing a value to a smaller exponent does not change it. -/
theorem signed_decreaseExponent (sign : Sign) (m : ℕ) {e t : ℤ} (h : t ≤ e) :
    (sign.apply (decreaseExponent m e t).1 : ℚ) * 2 ^ t = sign.apply m * 2 ^ e := by
  obtain ⟨k, rfl⟩ : ∃ k : ℕ, t = e - k := ⟨(e - t).toNat, by omega⟩
  have power : (2 : ℚ) ^ e = 2 ^ k * 2 ^ (e - k) := by
    rw [← zpow_natCast, ← zpow_add₀ (by norm_num), add_sub_cancel]
  have zeros : (decreaseExponent m e (e - k)).1 = m * 2 ^ k := by
    simp [decreaseExponent, Nat.shiftLeft_eq]
  rw [zeros, power]
  cases sign <;> simp only [Sign.apply] <;> push_cast <;> ring

theorem value?_ofUnpacked_finite {sign : Sign} {m : ℕ} {e : ℤ} {pos : 0 < m} :
    (View.ofUnpacked (.finite sign m e pos)).value? = some (sign.apply m * 2 ^ e : ℚ) := by
  cases sign <;> simp [View.ofUnpacked, View.value?, Sign.apply]

theorem value?_ofUnpacked_zero {sign : Sign} :
    (View.ofUnpacked (.zero sign)).value? = some 0 := by
  simp [View.ofUnpacked, View.value?]

theorem roundsTo_add {u v : UnpackedFloat} (hu : repack u = u) (hv : repack v = v) {p q : ℚ}
    (hp : (View.ofUnpacked u).value? = some p) (hq : (View.ofUnpacked v).value? = some q) :
    ∃ l, (View.ofUnpacked
        (repack (UnpackedFloat.add Format.binary64 u v))).extended? = some l ∧
      RoundsTo (p + q) l := by
  have left := View.extended?_eq_some_coe_iff.mpr hp
  have right := View.extended?_eq_some_coe_iff.mpr hq
  cases u with
  | notANumber | infinity s => cases hp
  | zero s =>
    rw [value?_ofUnpacked_zero] at hp
    cases hp
    rw [zero_add]
    cases v with
    | notANumber | infinity t => cases hq
    | zero t =>
      rw [value?_ofUnpacked_zero] at hq
      cases hq
      obtain ⟨sign, added⟩ : ∃ sign,
          UnpackedFloat.add Format.binary64 (.zero s) (.zero t) = .zero sign := by
        cases s <;> cases t <;> exact ⟨_, rfl⟩
      have packed : repack (.zero sign) = .zero sign := unpack_packedZero
      rw [added, packed]
      exact ⟨_, View.extended?_eq_some_coe_iff.mpr value?_ofUnpacked_zero, roundsTo_self 0⟩
    | finite t n f pos =>
      have added : UnpackedFloat.add Format.binary64 (.zero s) (.finite t n f pos) =
        .finite t n f pos := rfl
      rw [added, hv]
      exact ⟨_, right, roundsTo_self q⟩
  | finite s m e pos =>
    cases v with
    | notANumber | infinity t => cases hq
    | zero t =>
      rw [value?_ofUnpacked_zero] at hq
      cases hq
      have added : UnpackedFloat.add Format.binary64 (.finite s m e pos) (.zero t) =
        .finite s m e pos := rfl
      rw [added, hu, add_zero]
      exact ⟨_, left, roundsTo_self p⟩
    | finite t n f pos' =>
      rw [value?_ofUnpacked_finite, Option.some_inj] at hp hq
      rw [← hp, ← hq, ← signed_decreaseExponent s m (min_le_left e f),
        ← signed_decreaseExponent t n (min_le_right e f), ← add_mul]
      exact_mod_cast roundsTo_normalize _ _

section

variable {x y : Number} {p q : ℚ}

/-- **Sums are rounded:** no value of a double lies between the sum and the exact one. -/
theorem extended?_add (hx : value? x = some p) (hy : value? y = some q) :
    ∃ l, extended? (x + y) = some l ∧ RoundsTo (p + q) l := by
  rw [value?, view_eq_unpack] at hx hy
  rw [extended?, view_eq_unpack]
  exact roundsTo_add (repack_unpack x) (repack_unpack y) hx hy

/-- **A representable sum is exact.** -/
theorem value?_add (hx : value? x = some p) (hy : value? y = some q)
    (representable : Representable (p + q)) : value? (x + y) = some (p + q) := by
  obtain ⟨l, sum, rounds⟩ := extended?_add hx hy
  rw [rounds.eq_coe representable] at sum
  exact extended?_eq_some_coe_iff.mp sum

/-- An infinity stays what it is when a finite number is added. -/
theorem extended?_add_of_infinite {l : WithBotTop ℚ} (hx : extended? x = some l)
    (infinite : value? x = none) (hy : value? y = some q) : extended? (x + y) = some l := by
  rw [extended?, view_eq_unpack] at hx ⊢
  rw [value?, view_eq_unpack] at infinite hy
  cases u : x.toModel.unpack with
  | notANumber => rw [u] at hx; cases hx
  | zero s | finite s m e pos => rw [u] at infinite; cases infinite
  | infinity s =>
    have added : UnpackedFloat.add Format.binary64 x.toModel.unpack y.toModel.unpack =
        .infinity s := by
      rw [u]
      cases v : y.toModel.unpack with
      | notANumber | infinity t => rw [v] at hy; cases hy
      | zero t | finite t n f pos => rfl
    have packed : (x + y).toModel.unpack = .infinity s := by
      show repack (UnpackedFloat.add Format.binary64 x.toModel.unpack y.toModel.unpack) = _
      rw [added, repack_infinity]
    rw [packed, ← u]
    exact hx

end

end Number

end Scriptlet
