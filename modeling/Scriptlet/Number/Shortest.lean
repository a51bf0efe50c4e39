import Scriptlet.Number.Exact

/-!
# Shortest decimals

A finite double is the value of every real in its rounding interval.  The text
of a number has the fewest decimal digits that still lie in that interval.

## Main definitions

* `Number.Decimal` — `digits · 10 ^ exponent`
* `Number.Interval` — a positive double between the ends of its rounding interval
* `Number.shortest` — the decimal with the fewest digits inside the interval

## Design decisions

* An interval holds three numerators over one denominator, so that every
  comparison is one of natural numbers.
* The ends belong to the interval exactly when the mantissa is even, because a
  decimal that lies halfway between two doubles is read as the even one.
* The gap below a power of two is half as wide as the gap above it, except at
  the smallest exponent.
* On each grid `10 ^ k` only the two neighbours of the value are tried: if any
  point of the grid is in the interval then one of those two is.  Seventeen
  digits always suffice.
* Of two points that both lie in the interval the nearer one is taken, and the
  larger one if they are equally near.
* The search starts one grid above the leading digit, where the only point that
  can lie in the interval is the power of ten right above the value.
-/

namespace Scriptlet

namespace Number

/-- **Decimal.**  The value `digits · 10 ^ exponent`. -/
structure Decimal where
  /-- The digits, read as one natural number. -/
  digits : Nat
  /-- The power of ten that the digits are scaled by. -/
  exponent : Int
deriving DecidableEq

/-- **Rounding interval.**  The reals from `low / unit` to `high / unit` are
those that are read as the double `value / unit`. -/
structure Interval where
  /-- Numerator of the lower end. -/
  low : Nat
  /-- Numerator of the double itself. -/
  value : Nat
  /-- Numerator of the upper end. -/
  high : Nat
  /-- The common denominator. -/
  unit : Nat
  /-- Whether the two ends belong to the interval. -/
  closed : Bool

namespace Interval

/-- The rounding interval of the double `m · 2 ^ e`. -/
def ofDouble (m : Nat) (e : Int) : Interval :=
  let below := if m = Nat.pow 2 52 ∧ -1074 < e then 1 else 2
  let scale := Nat.pow 2 (e - 2).toNat
  ⟨(4 * m - below) * scale, 4 * m * scale, (4 * m + 2) * scale, Nat.pow 2 (2 - e).toNat,
    m % 2 == 0⟩

/-- How often `num` has to be multiplied by ten, at most `bound` times, to reach
`den`. -/
def decimalShift (num den : Nat) : Nat → Nat
  | 0 => 0
  | bound + 1 => if den ≤ num then 0 else decimalShift (10 * num) den bound + 1

/-- The number of decimal digits in front of the point; for a value below one,
minus the number of zeros right behind the point. -/
def magnitude (v : Interval) : Int :=
  let shift := decimalShift v.value v.unit 400
  (Nat.toDigits 10 (v.value * Nat.pow 10 shift / v.unit)).length - shift

/-- The decimal on the grid `10 ^ k` that lies in the interval and is nearest
to its value. -/
def onGrid? (v : Interval) (k : Int) : Option Decimal :=
  let up := Nat.pow 10 (-k).toNat
  let step := v.unit * Nat.pow 10 k.toNat
  let value := v.value * up
  let floor := value / step
  let admits (a b : Nat) : Bool := if v.closed then decide (a ≤ b) else decide (a < b)
  let down := admits (v.low * up) (floor * step)
  let upper := admits ((floor + 1) * step) (v.high * up)
  if down && (!upper || decide (2 * (value - floor * step) < step)) then some ⟨floor, k⟩
  else if upper then some ⟨floor + 1, k⟩
  else none

/-- Tries the grids from `10 ^ k` downward, at most `tries` of them. -/
def firstOnGrid (v : Interval) (k : Int) : Nat → Decimal
  | 0 => ⟨v.value * Nat.pow 10 (-k).toNat / (v.unit * Nat.pow 10 k.toNat), k⟩
  | tries + 1 => (v.onGrid? k).getD (v.firstOnGrid (k - 1) tries)

end Interval

/-- **Shortest decimal** of the positive double `m · 2 ^ e`. -/
def shortest (m : Nat) (e : Int) : Decimal :=
  let v := Interval.ofDouble m e
  v.firstOnGrid v.magnitude 18

end Number

end Scriptlet
