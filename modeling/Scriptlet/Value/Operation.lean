import Scriptlet.Error.Runtime
import Scriptlet.Value.Heap

/-!
# Operations on values

What the operators compute.  Operations read the heap, for the elements of arrays
that are compared and for the types that errors name; none of them changes it.

## Main definitions

* `Operation.number`, `Operation.boolean`, `Operation.array` — a value that has to
  be of a type
* `Operation.unary`, `Operation.binary` — prefix and infix operators
* `Operation.arithmetic`, `Operation.comparison`, `Operation.logic` — the three
  families of infix operators

## Design decisions

* Infix operators need operands of one data type.  Only `binary` checks that, so
  the families also answer for mixed operands: equality compares them, and the
  other operators refuse them.
* Both operands of `and` and `or` are values here; nothing is cut short.
-/

namespace Scriptlet

namespace Operation

/-- The number that a value is. -/
def number (heap : Heap) : Value → Except Fault Number
  | .number x => .ok x
  | v => .error (.wrongType .number (heap.typeOf v))

/-- The truth value that a value is. -/
def boolean (heap : Heap) : Value → Except Fault Bool
  | .boolean b => .ok b
  | v => .error (.wrongType .boolean (heap.typeOf v))

/-- The array that a value is. -/
def array (heap : Heap) : Value → Except Fault Handle
  | .array a => .ok a
  | v => .error (.wrongType .array (heap.typeOf v))

/-- **Prefix operation.** -/
def unary (heap : Heap) : UnaryOp → Value → Except Fault Value
  | .plus, .number x => .ok (.number x)
  | .minus, .number x => .ok (.number (-x))
  | .not, .boolean b => .ok (.boolean !b)
  | op, v => .error (.unaryOperand op (heap.typeOf v))

/-- The fault of an infix operator on operands that it does not apply to. -/
def refuse (heap : Heap) (op : BinaryOp) (v w : Value) : Except Fault Value :=
  .error (.binaryOperands op (heap.typeOf v) (heap.typeOf w))

/-- **Arithmetic** on numbers; `+` also joins texts. -/
def arithmetic (heap : Heap) : BinaryOp → Value → Value → Except Fault Value
  | .add, .number x, .number y => .ok (.number (x + y))
  | .sub, .number x, .number y => .ok (.number (x - y))
  | .mul, .number x, .number y => .ok (.number (x * y))
  | .div, .number x, .number y => .ok (.number (x / y))
  | .rem, .number x, .number y => .ok (.number (Number.remainder x y))
  | .add, .text s, .text t => .ok (.text (s ++ t))
  | op, v, w => refuse heap op v w

/-- **Comparison**: equality of any two values, and the order of numbers. -/
def comparison (heap : Heap) : BinaryOp → Value → Value → Except Fault Value
  | .equal, v, w => .ok (.boolean (heap.equal v w))
  | .notEqual, v, w => .ok (.boolean !heap.equal v w)
  | .less, .number x, .number y => .ok (.boolean (x < y))
  | .greater, .number x, .number y => .ok (.boolean (y < x))
  | .lessEqual, .number x, .number y => .ok (.boolean (x ≤ y))
  | .greaterEqual, .number x, .number y => .ok (.boolean (y ≤ x))
  | op, v, w => refuse heap op v w

/-- **Logic** on truth values. -/
def logic (heap : Heap) : BinaryOp → Value → Value → Except Fault Value
  | .and, .boolean b, .boolean c => .ok (.boolean (b && c))
  | .or, .boolean b, .boolean c => .ok (.boolean (b || c))
  | op, v, w => refuse heap op v w

/-- **Infix operation** on two values of one data type. -/
def binary (heap : Heap) (op : BinaryOp) (v w : Value) : Except Fault Value :=
  if v.tag ≠ w.tag then refuse heap op v w
  else
    match op with
    | .add | .sub | .mul | .div | .rem => arithmetic heap op v w
    | .less | .greater | .lessEqual | .greaterEqual | .equal | .notEqual =>
      comparison heap op v w
    | .and | .or => logic heap op v w

/-- **Loop check.**  A counted loop needs a step that is not zero and does not
lead away from its end. -/
def checkLoop (start stop step : Number) : Except Fault Unit :=
  if step == 0 then .error .zeroStep
  else if start < stop && step < 0 then .error .stepDown
  else if stop < start && 0 < step then .error .stepUp
  else .ok ()

/-- **Arity check.** -/
def checkArity (function : String) (expected found : Nat) : Except Fault Unit :=
  if expected = found then .ok () else .error (.arity function expected found)

/-- **Declaration check.**  The value of a declared variable conforms to the
declared type. -/
def checkDeclared (heap : Heap) (name : String) (declared : TypeSpec) (v : Value) :
    Except Fault Unit :=
  if heap.conforms v declared then .ok ()
  else .error (.declaredType name declared (heap.typeOf v))

/-- The position that a number names in an array. -/
def position (index : Number) (length : Nat) : Except Fault Nat :=
  (Number.index? index length).elim (.error (.index index length)) .ok

/-- A count as a number. -/
def ofCount (n : Nat) : Except Fault Number :=
  (Number.ofCount? n).elim (.error (.count n)) .ok

end Operation

end Scriptlet
