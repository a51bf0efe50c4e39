/-!
# Operators

The prefix and infix operators of expressions, how tightly each infix operator
binds, and how each is written.

## Main definitions

* `UnaryOp`, `BinaryOp` — the operators
* `BinaryOp.precedence` — higher binds tighter
-/

namespace Scriptlet

/-- **Prefix operator.** -/
inductive UnaryOp where
  /-- Written `+x` -/
  | plus
  /-- Written `-x` -/
  | minus
  /-- Written `not x` -/
  | not
deriving DecidableEq, Inhabited

/-- How a prefix operator is written. -/
def UnaryOp.text : UnaryOp → String
  | .plus => "+"
  | .minus => "-"
  | .not => "not"

/-- **Infix operator.** -/
inductive BinaryOp where
  /-- Written `+`, also the concatenation of texts -/
  | add
  /-- Written `-` -/
  | sub
  /-- Written `*` -/
  | mul
  /-- Written `/` -/
  | div
  /-- Written `%`, the remainder of the operands cut toward zero -/
  | rem
  /-- Written `<` -/
  | less
  /-- Written `>` -/
  | greater
  /-- Written `<=` -/
  | lessEqual
  /-- Written `>=` -/
  | greaterEqual
  /-- Written `==` -/
  | equal
  /-- Written `!=` -/
  | notEqual
  /-- Written `and` -/
  | and
  /-- Written `or` -/
  | or
deriving DecidableEq, Inhabited

namespace BinaryOp

/-- **Binding strength.**  An operator of higher precedence takes its operands
before one of lower precedence. -/
def precedence : BinaryOp → Nat
  | .mul | .div | .rem => 5
  | .add | .sub => 4
  | .less | .greater | .lessEqual | .greaterEqual => 3
  | .equal | .notEqual => 2
  | .and => 1
  | .or => 0

/-- How an infix operator is written. -/
def text : BinaryOp → String
  | .add => "+"
  | .sub => "-"
  | .mul => "*"
  | .div => "/"
  | .rem => "%"
  | .less => "<"
  | .greater => ">"
  | .lessEqual => "<="
  | .greaterEqual => ">="
  | .equal => "=="
  | .notEqual => "!="
  | .and => "and"
  | .or => "or"

end BinaryOp

end Scriptlet
