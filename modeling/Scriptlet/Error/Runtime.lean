import Scriptlet.Number.Layout
import Scriptlet.Site
import Scriptlet.Tree.Operator
import Scriptlet.Value.DataType

/-!
# Errors of running

A runtime error is a fault at a site.  Faults say what went wrong; how they are
worded and under which heading they are reported follows from that.

## Main definitions

* `FaultKind` — the headings
* `Fault` — what went wrong
* `Fault.kind`, `Fault.details` — heading and wording
* `RuntimeError` — a fault and where it happened
-/

namespace Scriptlet

/-- **Heading** under which a fault is reported. -/
inductive FaultKind where
  /-- A value has the wrong type. -/
  | typeError
  /-- A name has no meaning. -/
  | nameError
  /-- A call has the wrong number of arguments. -/
  | arityError
  /-- A counted loop cannot proceed from its start to its end. -/
  | loopConfiguration
  /-- An array has no element at the place. -/
  | indexError
  /-- A builtin cannot work with an argument. -/
  | invalidArgument
  /-- Output could not be written. -/
  | output
deriving DecidableEq, Inhabited

/-- How a heading is written in front of the details. -/
def FaultKind.label : FaultKind → String
  | .typeError => "TypeError: "
  | .nameError => "NameError: "
  | .arityError => "ArityError: "
  | .loopConfiguration => "LoopConfigurationError: "
  | .indexError => "IndexError: "
  | .invalidArgument => "invalid argument: "
  | .output => "failed to write output: "

/-- **What an operation needs** in place of a value of another type. -/
inductive Wanted where
  /-- A number. -/
  | number
  /-- A truth value. -/
  | boolean
  /-- An array of any element type. -/
  | array
deriving DecidableEq, Inhabited

/-- How a need is worded. -/
def Wanted.text : Wanted → String
  | .number => "num"
  | .boolean => "bool"
  | .array => "an array"

/-- **Fault.** -/
inductive Fault where
  /-- A value of another type is needed. -/
  | wrongType (wanted : Wanted) (found : TypeSpec)
  /-- A prefix operator does not apply to the operand. -/
  | unaryOperand (op : UnaryOp) (found : TypeSpec)
  /-- An infix operator does not apply to the operands. -/
  | binaryOperands (op : BinaryOp) (left right : TypeSpec)
  /-- A value is needed, but the expression gave none. -/
  | noValue
  /-- A value does not conform to the declared type of a variable. -/
  | declaredType (name : String) (declared found : TypeSpec)
  /-- A value cannot replace the one that a variable holds. -/
  | heldType (name : String) (held found : TypeSpec)
  /-- An argument does not conform to the type of its parameter. -/
  | argumentType (parameter function : String) (declared found : TypeSpec)
  /-- A result does not conform to the return type. -/
  | returnType (function : String) (declared found : TypeSpec)
  /-- A template for printing is no text. -/
  | templateType (found : TypeSpec)
  /-- An array is to become an element of an array. -/
  | nestedArray (found : TypeSpec)
  /-- A value does not have the element type of the array. -/
  | elementType (found : TypeSpec) (element : DataType)
  /-- A variable is not declared. -/
  | undeclaredVariable (name : String)
  /-- A variable that is not declared is to get a new value. -/
  | undeclaredTarget (name : String)
  /-- A function is neither defined nor builtin. -/
  | undefinedFunction (name : String)
  /-- A call has the wrong number of arguments. -/
  | arity (function : String) (expected found : Nat)
  /-- The step of a counted loop is zero. -/
  | zeroStep
  /-- A counted loop goes up, but its step goes down. -/
  | stepDown
  /-- A counted loop goes down, but its step goes up. -/
  | stepUp
  /-- An array has no element at the place. -/
  | index (place : Number) (length : Nat)
  /-- A count is too large to be a number. -/
  | count (n : Nat)
  /-- There are more values than places for them in a template. -/
  | template (values placeholders : Nat)
  /-- The output does not accept more. -/
  | output (reason : String)
  /-- A fault that somebody else words, under one of the headings. -/
  | reported (kind : FaultKind) (details : String)
deriving DecidableEq, Inhabited

namespace Fault

/-- The heading of a fault. -/
def kind : Fault → FaultKind
  | .wrongType .. | .unaryOperand .. | .binaryOperands .. | .noValue | .declaredType ..
  | .heldType .. | .argumentType .. | .returnType .. | .templateType .. | .nestedArray ..
  | .elementType .. => .typeError
  | .undeclaredVariable .. | .undeclaredTarget .. | .undefinedFunction .. => .nameError
  | .arity .. => .arityError
  | .zeroStep | .stepDown | .stepUp => .loopConfiguration
  | .index .. => .indexError
  | .count .. | .template .. => .invalidArgument
  | .output .. => .output
  | .reported kind _ => kind

/-- The wording of a fault. -/
def details : Fault → String
  | .wrongType wanted found => "expected " ++ wanted.text ++ ", found " ++ found.text
  | .unaryOperand op found => "cannot apply unary " ++ op.text ++ " to " ++ found.text
  | .binaryOperands op left right =>
    "cannot use '" ++ op.text ++ "' on " ++ left.text ++ " and " ++ right.text
  | .noValue => "expression produced no value"
  | .declaredType name declared found =>
    "cannot assign " ++ found.text ++ " to '" ++ name ++ "' declared as " ++ declared.text
  | .heldType name held found =>
    "cannot assign " ++ found.text ++ " to '" ++ name ++ "' which holds " ++ held.text
  | .argumentType parameter function declared found =>
    "argument '" ++ parameter ++ "' of '" ++ function ++ "' must be " ++ declared.text ++
      ", found " ++ found.text
  | .returnType function declared found =>
    "function '" ++ function ++ "' must return " ++ declared.text ++ ", found " ++ found.text
  | .templateType found => "print template must be str, found " ++ found.text
  | .nestedArray found => "cannot store " ++ found.text ++ " inside an array"
  | .elementType found element =>
    "cannot store " ++ found.text ++ " in an array of " ++ element.name
  | .undeclaredVariable name => "variable '" ++ name ++ "' is not declared"
  | .undeclaredTarget name =>
    "cannot reassign '" ++ name ++ "' because it was never declared"
  | .undefinedFunction name => "function '" ++ name ++ "' is not defined"
  | .arity function expected found =>
    "function '" ++ function ++ "' expects " ++ Nat.repr expected ++
      " argument(s) but was called with " ++ Nat.repr found
  | .zeroStep => "step must not be zero"
  | .stepDown => "from < to but step negative"
  | .stepUp => "from > to but step positive"
  | .index place length =>
    "index " ++ Number.text place ++ " is out of range for an array of length " ++
      Nat.repr length
  | .count n => Nat.repr n ++ " cannot be represented as a number"
  | .template values placeholders =>
    "print received " ++ Nat.repr values ++ " value(s) for " ++ Nat.repr placeholders ++
      " placeholder(s)"
  | .output reason => reason
  | .reported _ details => details

end Fault

/-- **Runtime error.**  A fault and where it happened. -/
structure RuntimeError where
  /-- What went wrong. -/
  fault : Fault
  /-- Where it went wrong. -/
  site : Site
deriving DecidableEq, Inhabited

/-- The wording of the error. -/
def RuntimeError.message (e : RuntimeError) : String :=
  e.site.text ++ ": " ++ e.fault.kind.label ++ e.fault.details

end Scriptlet
