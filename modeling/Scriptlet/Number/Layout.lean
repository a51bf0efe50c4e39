import Scriptlet.Number.Shortest

/-!
# The text of numbers

Two layouts of the same shortest digits: the one that scripts print, and the one
that tree outlines use.

## Main definitions

* `Number.text` — positional at every size, whole numbers without a point
* `Number.outline` — whole numbers with `.0`, very large and very small numbers
  with an exponent
-/

namespace Scriptlet

namespace Number

namespace Decimal

/-- The digits without a point. -/
def digitChars (d : Decimal) : List Char :=
  Nat.toDigits 10 d.digits

/-- **Positional layout.**  A decimal in front of the point gets zeros up to
the point; one behind it gets zeros between the point and its digits. -/
def positional (d : Decimal) : List Char :=
  let ds := d.digitChars
  if 0 ≤ d.exponent then ds ++ List.replicate d.exponent.toNat '0'
  else
    let places := (-d.exponent).toNat
    if places < ds.length then
      ds.take (ds.length - places) ++ '.' :: ds.drop (ds.length - places)
    else '0' :: '.' :: List.replicate (places - ds.length) '0' ++ ds

/-- **Exponent layout.**  One digit in front of the point, the others behind it
without closing zeros, then `e` and the power of ten. -/
def scientific (d : Decimal) : List Char :=
  match d.digitChars with
  | [] => []
  | first :: others =>
    let kept := (others.reverse.dropWhile (· == '0')).reverse
    let fraction := if kept.isEmpty then [] else '.' :: kept
    let power := d.exponent + others.length
    first :: fraction ++ 'e' :: (toString power).toList

end Decimal

/-- Writes a sign in front of `cs`. -/
def signed (negative : Bool) (cs : List Char) : String :=
  String.ofList (if negative then '-' :: cs else cs)

/-- **Text of a number** as scripts print it: the shortest digits that read
back, never with an exponent, and whole numbers without a point.  The zeros are
`0` and `-0`. -/
def text (x : Number) : String :=
  match view x with
  | .nan => "NaN"
  | .infinite s => signed s ['i', 'n', 'f']
  | .finite s 0 _ => signed s ['0']
  | .finite s m e => signed s (shortest m e).positional

/-- The least magnitude that outlines write with an exponent. -/
def outlineHigh : Number := 1e16

/-- Smaller magnitudes than this, zero apart, are written with an exponent in
outlines. -/
def outlineLow : Number := 1e-4

/-- **Outline of a number**: the shortest digits that read back, with `.0` on
whole numbers, and with an exponent from `1e16` upward and below `1e-4`. -/
def outline (x : Number) : String :=
  match view x with
  | .nan => "NaN"
  | .infinite s => signed s ['i', 'n', 'f']
  | .finite s 0 _ => signed s ['0', '.', '0']
  | .finite s m e =>
    let d := shortest m e
    if x.abs < outlineLow || outlineHigh ≤ x.abs then signed s d.scientific
    else if 0 ≤ d.exponent then signed s (d.positional ++ ['.', '0'])
    else signed s d.positional

end Number

end Scriptlet
