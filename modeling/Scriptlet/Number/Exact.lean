/-!
# Exact values of numbers

The numbers of the language are IEEE 754 doubles.  Whatever has to be exact
(remainders, array positions, the text of a number) works on the value that a
double stands for, written as a natural mantissa and a power of two.

## Main definitions

* `Number.view` — a double as not-a-number, an infinity, or `± m · 2^e`
* `Number.remainder` — the remainder of the operands cut toward zero
* `Number.natural?` — the natural number that a double is equal to
* `Number.index?` — the array position that a double names
* `Number.ofCount?` — a count as a number, when that is exact

## Design decisions

* Nothing here rounds.  The remainder of two integral doubles is an integral
  double, so going through `Nat` loses nothing.
* Counts and positions stop at `maxExact`, the last integer below which
  neighbouring integers are different doubles.
* Powers are written as `Nat.pow`, which means the same whatever else is imported.
-/

namespace Scriptlet

/-- **Number of the language.**  An IEEE 754 double. -/
abbrev Number := Float

namespace Number

/-- **What a double stands for.** -/
inductive View where
  /-- Not a number. -/
  | nan
  /-- An infinity and its sign. -/
  | infinite (negative : Bool)
  /-- The value `± mantissa · 2 ^ exponent`; a zero has mantissa zero. -/
  | finite (negative : Bool) (mantissa : Nat) (exponent : Int)
deriving DecidableEq

/-- Reads a double from its bits: one sign bit, eleven exponent bits and 52
fraction bits.  A zero exponent field has no hidden bit. -/
def view (x : Number) : View :=
  let bits : Nat := x.toBits.toNat
  let negative := bits / Nat.pow 2 63 == 1
  let field : Nat := bits / Nat.pow 2 52 % Nat.pow 2 11
  let fraction : Nat := bits % Nat.pow 2 52
  if field = Nat.pow 2 11 - 1 then
    if fraction = 0 then .infinite negative else .nan
  else if field = 0 then .finite negative fraction (-1074)
  else .finite negative (Nat.pow 2 52 + fraction) ((field : Int) - 1075)

/-- The largest count that is a number together with all smaller ones. -/
def maxExact : Nat := Nat.pow 2 53 - 1

/-- Written `m · 2 ^ e` cut to a whole number. -/
def wholePart (m : Nat) (e : Int) : Nat :=
  if 0 ≤ e then m * Nat.pow 2 e.toNat else m / Nat.pow 2 (-e).toNat

/-- The integral double of the given sign and magnitude.  A negative zero is
kept apart from zero. -/
def ofMagnitude (negative : Bool) (n : Nat) : Number :=
  let x := Float.ofScientific n false 0
  if negative then -x else x

/-- Not a number. -/
def nan : Number := 0.0 / 0.0

/-- **Remainder.**  Both operands are cut toward zero first; the result has the
sign of the first operand, also when it is zero.  There is no remainder of an
infinity, nor of a division by something that is cut to zero. -/
def remainder (x y : Number) : Number :=
  match view x, view y with
  | .finite s m e, .finite _ m' e' =>
    let divisor := wholePart m' e'
    if divisor = 0 then nan else ofMagnitude s (wholePart m e % divisor)
  | .finite s m e, .infinite _ => ofMagnitude s (wholePart m e)
  | _, _ => nan

/-- The natural number that `x` is equal to, if there is one. -/
def natural? (x : Number) : Option Nat :=
  match view x with
  | .finite s m e =>
    if s && m != 0 then none
    else if 0 ≤ e then some (m * Nat.pow 2 e.toNat)
    else if m % Nat.pow 2 (-e).toNat = 0 then some (m / Nat.pow 2 (-e).toNat)
    else none
  | _ => none

/-- **Array position.**  The position that `x` names in an array of `length`
elements: a natural number below the length. -/
def index? (x : Number) (length : Nat) : Option Nat :=
  (natural? x).filter fun i => decide (i ≤ maxExact) && decide (i < length)

/-- A count as a number, unless it is past `maxExact`. -/
def ofCount? (n : Nat) : Option Number :=
  if n ≤ maxExact then some (ofMagnitude false n) else none

/-- The number written as the digits of `digits` with the point before the last
`places` of them, correctly rounded. -/
def ofDecimal (digits places : Nat) : Number :=
  Float.ofScientific digits true places

end Number

end Scriptlet
