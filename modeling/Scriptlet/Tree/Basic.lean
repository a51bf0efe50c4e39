import Scriptlet.Token.Basic
import Scriptlet.Tree.Operator

/-!
# Syntax trees

Expressions yield values; statements change the state and may end the block that
they stand in.

## Main definitions

* `Expr` — expressions
* `Stmt`, `Block`, `Conditional`, `Otherwise`, `Function` — statements
* `Block.returnIndex?` — the first `return` among the statements of a block
* `Stmt.carriesReturn` — whether a value of the statement is one that a `return`
  inside of it gave

## Design decisions

* Every node has the site of one token: operators and calls of the operator and
  of the name, array literals and blocks of the opening bracket, statements of
  their first token.
* A call can be an expression or a statement, and the two are different nodes.
* An `if` chain is a conditional whose `next` field says what is tried if the
  condition is false, so a chain has a condition on every link but the last.
* Parameters and declared variables hold a `DeclaredType`, so a tree has no types
  that a script cannot write.
-/

namespace Scriptlet

/-- **Expression.** -/
inductive Expr where
  /-- A constant. -/
  | literal (value : Literal) (site : Site)
  /-- The value of a variable. -/
  | var (name : String) (site : Site)
  /-- A prefix operation. -/
  | unary (op : UnaryOp) (operand : Expr) (site : Site)
  /-- An infix operation. -/
  | binary (op : BinaryOp) (left right : Expr) (site : Site)
  /-- A new array. -/
  | array (elements : List Expr) (site : Site)
  /-- A function call. -/
  | call (name : String) (arguments : List Expr) (site : Site)
deriving Inhabited

namespace Expr

/-- The site of an expression. -/
def site : Expr → Site
  | .literal _ site | .var _ site | .unary _ _ site | .binary _ _ _ site | .array _ site
  | .call _ _ site => site

/-- What kind of node an expression is, in words. -/
def kind : Expr → String
  | .literal .. => "literal"
  | .var .. => "variable"
  | .unary .. => "unary"
  | .binary .. => "binary"
  | .array .. => "array"
  | .call .. => "function call"

end Expr

/-- **Parameter** of a function. -/
structure Parameter where
  /-- The name that the argument is bound to. -/
  name : String
  /-- The type that the argument has to conform to. -/
  type : DeclaredType
  /-- The site of the type. -/
  site : Site
deriving DecidableEq, Inhabited

mutual

/-- **Statement.** -/
inductive Stmt where
  /-- Binds a new variable in the innermost frame. -/
  | declare (type : DeclaredType) (name : String) (nameSite : Site) (value : Expr) (site : Site)
  /-- Gives a new value to the nearest variable of that name. -/
  | reassign (name : String) (nameSite : Site) (value : Expr) (site : Site)
  /-- Defines a function in the innermost frame. -/
  | define (function : Function)
  /-- Calls a function for its effects. -/
  | call (name : String) (arguments : List Expr) (site : Site)
  /-- Runs a block in a frame of its own. -/
  | block (body : Block)
  /-- An `if` chain. -/
  | branch (chain : Conditional)
  /-- Repeats the body as long as the condition is true. -/
  | loop (condition : Expr) (body : Block) (site : Site)
  /-- Repeats the body for each value of a counter. -/
  | count (start stop step : Expr) (body : Block) (site : Site)
  /-- Ends the function with a value, or with void. -/
  | ret (value : Option Expr) (site : Site)
  /-- Does nothing. -/
  | empty (site : Site)

/-- **Block.** -/
structure Block where
  /-- The statements, in order. -/
  statements : List Stmt
  /-- The site of the opening brace, or of the first token of a program. -/
  site : Site

/-- **Conditional.**  One link of an `if` chain. -/
structure Conditional where
  /-- What decides whether the body runs. -/
  condition : Expr
  /-- What runs if the condition is true. -/
  body : Block
  /-- What is tried if it is false. -/
  next : Otherwise
  /-- The site of the `if` or `elif`. -/
  site : Site

/-- **Rest of an `if` chain**, tried when a condition was false. -/
inductive Otherwise where
  /-- The chain ends. -/
  | done
  /-- An `elif` link. -/
  | elif (link : Conditional)
  /-- An `else` link. -/
  | last (body : Block) (site : Site)

/-- **Function definition.** -/
structure Function where
  /-- The name of the function. -/
  name : String
  /-- The type that the result has to conform to. -/
  returnType : DeclaredType
  /-- The parameters, in order. -/
  parameters : List Parameter
  /-- What a call runs. -/
  body : Block
  /-- The site of the return type. -/
  site : Site

end

namespace Stmt

/-- The site of a statement. -/
def site : Stmt → Site
  | .declare _ _ _ _ site | .reassign _ _ _ site | .call _ _ site | .loop _ _ site
  | .count _ _ _ _ site | .ret _ site | .empty site => site
  | .define function => function.site
  | .block body => body.site
  | .branch chain => chain.site

/-- What kind of node a statement is, in words. -/
def kind : Stmt → String
  | .declare .. => "declaration"
  | .reassign .. => "reassignment"
  | .define .. => "function definition"
  | .call .. => "function call"
  | .block .. => "block"
  | .branch .. => "if"
  | .loop .. => "while"
  | .count .. => "loop"
  | .ret .. => "return"
  | .empty .. => "empty"

/-- Whether a statement is a `return`. -/
def isReturn : Stmt → Bool
  | .ret .. => true
  | _ => false

/-- Whether a value of the statement comes from a `return`: from the statement
itself, or from a block, branch or loop that a `return` has ended. -/
def carriesReturn : Stmt → Bool
  | .ret .. | .block .. | .branch .. | .loop .. | .count .. => true
  | _ => false

end Stmt

namespace Block

/-- The place of the first `return` among the statements of the block, not
counting those of nested blocks. -/
def returnIndex? (b : Block) : Option Nat :=
  b.statements.findIdx? Stmt.isReturn

/-- The first `return` among the statements of the block. -/
def return? (b : Block) : Option Stmt :=
  b.statements.find? Stmt.isReturn

end Block

end Scriptlet
