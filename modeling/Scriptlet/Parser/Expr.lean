import Scriptlet.Parser.Basic

/-!
# Parsing of expressions

Operands are joined by precedence climbing: an operator takes the operand to its
right together with all operators behind that which bind tighter.

## Main definitions

* `Parser.factor` — an operand, prefix operators included
* `Parser.climb` — folds operators into a left operand
* `Parser.binary` — an expression of operators that bind at least as tightly as
  a given precedence
* `Parser.expression` — an expression

## Design decisions

* Operands hold whole expressions (in brackets and as arguments), so `factor`
  takes the parser for those as an argument.  That parser is `binary` with a
  smaller bound, which makes the recursion structural.
* `climb` with the precedence one above an operator's own takes exactly the
  tighter operators and leaves the rest, so it needs no test in front.
* An operator whose token is marked as grouping to the right is taken into the
  right operand of an operator of its own level.
-/

namespace Scriptlet

/-- The prefix operator that a token spells. -/
def TokenKind.unaryOp? : TokenKind → Option UnaryOp
  | .operator .plus => some .plus
  | .operator .minus => some .minus
  | .operator .not => some .not
  | _ => none

/-- The infix operator that a sign spells. -/
def Sign.binaryOp? : Sign → Option BinaryOp
  | .plus => some .add
  | .minus => some .sub
  | .star => some .mul
  | .slash => some .div
  | .percent => some .rem
  | .less => some .less
  | .greater => some .greater
  | .lessEqual => some .lessEqual
  | .greaterEqual => some .greaterEqual
  | .equalEqual => some .equal
  | .bangEqual => some .notEqual
  | .and => some .and
  | .or => some .or
  | .not => none

/-- The infix operator that a token spells. -/
def TokenKind.binaryOp? : TokenKind → Option BinaryOp
  | .operator sign => sign.binaryOp?
  | _ => none

namespace Parser

/-- The arguments of a call, behind the opening bracket. -/
def arguments (expression : Parser Expr) (bound : Nat) : Parser (List Expr) :=
  separated expression .rightParen bound

/-- A variable, or a call if a bracket opens right behind the name. -/
def nameOrCall (expression : Parser Expr) (bound : Nat) : Parser Expr := do
  let (name, site) ← identifier
  let t ← peek
  if t.kind = .mark .leftParen then
    advance
    let args ← arguments expression bound
    return .call name args site
  else return .var name site

/-- An operand without prefix operators, which starts with the token `t`. -/
def primary (expression : Parser Expr) (bound : Nat) (t : Token) : Parser Expr :=
  match t.kind with
  | .literal value => do
    advance
    return .literal value t.site
  | .mark .leftParen => do
    advance
    let inner ← expression
    let _ ← expect (.mark .rightParen) "')'"
    return inner
  | .mark .leftBracket => do
    advance
    let elements ← separated expression .rightBracket bound
    return .array elements t.site
  | .identifier _ => nameOrCall expression bound
  | .endOfStream => throw (.endOfInput t.site)
  | _ => throw (.invalidOperation t.lexeme t.site)

/-- **Operand.**  Prefix operators bind tighter than infix ones and group to the
right. -/
def factor (expression : Parser Expr) : Nat → Parser Expr
  | 0 => exhausted
  | bound + 1 => do
    let t ← peek
    match t.kind.unaryOp? with
    | some op =>
      advance
      let operand ← factor expression bound
      return .unary op operand t.site
    | none => primary expression bound t

/-- The infix operator at the front, which stays, and its token. -/
def peekOperator? : Parser (Option (BinaryOp × Token)) := fun c =>
  .ok (c.tokens.head?.bind fun t => t.kind.binaryOp?.map (·, t)) c

/-- **Precedence climbing.**  Folds operators of precedence at least `least` and
their operands into `left`. -/
def climb (operand : Parser Expr) : Nat → Expr → Nat → Parser Expr
  | 0, left, _ => return left
  | bound + 1, left, least => do
    match ← peekOperator? with
    | none => return left
    | some (op, token) =>
      if op.precedence < least then return left
      else
        advance
        let first ← operand
        let tight ← climb operand bound first (op.precedence + 1)
        let right ←
          match ← peekOperator? with
          | some (next, nextToken) =>
            if next.precedence = op.precedence ∧ nextToken.flags.rightToLeft then
              climb operand bound tight op.precedence
            else pure tight
          | none => pure tight
        note (.folding op token.site)
        climb operand bound (.binary op left right token.site) least

/-- An expression of operators of precedence at least `least`. -/
def binary : Nat → Nat → Parser Expr
  | 0, _ => exhausted
  | bound + 1, least => do
    let operand := factor (binary bound 0) (bound + 1)
    let left ← operand
    climb operand (bound + 1) left least

/-- **Expression.** -/
def expression (bound : Nat) : Parser Expr := binary bound 0

end Parser

end Scriptlet
