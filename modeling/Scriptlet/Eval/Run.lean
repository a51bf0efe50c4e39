import Scriptlet.Eval.Steps

/-!
# Evaluation

The evaluator proper: expressions and statements, with the recursion bounded by
fuel.

## Main definitions

* `Eval.expr` — evaluates an expression
* `Eval.stmt` — executes a statement
* `Eval.block` — executes a block in the current frame

## Design decisions

* The two functions recurse on the fuel only, each step handing one less to its
  parts, so that the depth of an evaluation is bounded by the fuel whatever the
  script does.
* Every node is logged when its evaluation begins.
-/

namespace Scriptlet

namespace Eval

variable {σ : Type} (host : Host σ) (config : Config)

mutual

/-- **Evaluation of an expression.**  Only a call can have no value. -/
def expr : Nat → Expr → Eval σ (Option Value)
  | 0, _ => outOfFuel
  | fuel + 1, e => do
    note (.evaluating e.kind e.site)
    match e with
    | .literal value _ => return some (.ofLiteral value)
    | .var name site => some <$> lookup name site
    | .unary op operand site => some <$> applyUnary (expr fuel) op operand site
    | .binary op left right site => some <$> applyBinary (expr fuel) op left right site
    | .array elements _ => do
      let vs ← demandAll (expr fuel) elements
      some <$> newArray vs
    | .call name args site =>
      invoke host config (expr fuel) (fun b => statements config (stmt fuel) b.statements)
        name args site

/-- **Execution of a statement.**  Its value, if it has one, may end the block
around it. -/
def stmt : Nat → Stmt → Eval σ (Option Value)
  | 0, _ => outOfFuel
  | fuel + 1, s => do
    note (.evaluating s.kind s.site)
    let run (b : Block) : Eval σ (Option Value) := statements config (stmt fuel) b.statements
    match s with
    | .declare type name _ value site => do
      declare (expr fuel) type name value site
      return none
    | .reassign name nameSite value site => do
      reassign (expr fuel) name nameSite value site
      return none
    | .define f => do
      modifyScope (Scope.define f)
      return none
    | .call name args site => invoke host config (expr fuel) run name args site
    | .block body => inChild .empty (run body)
    | .branch chain => branch (expr fuel) run chain
    | .loop condition body _ =>
      repeatWhile (demandBoolean (expr fuel) condition) (inChild .empty (run body)) fuel
    | .count start stop step body site => count (expr fuel) run start stop step body site fuel
    | .ret (some value) _ => some <$> demand (expr fuel) value
    | .ret none _ => return some .void
    | .empty _ => return none

end

/-- **Execution of a block** in the current frame. -/
def block (fuel : Nat) (b : Block) : Eval σ (Option Value) :=
  statements config (stmt host config fuel) b.statements

end Eval

end Scriptlet
