import Scriptlet.Eval.Run

/-!
# Structured return

An evaluator in which the end of a statement is explicit: it ends normally, or a
`return` ends it with a value.  Whether a value of a statement counts is not asked
anywhere, since only a `return` gives one.

## Main definitions

* `Outcome` — how the execution of a statement ends
* `Structured.Ending` — the outcome with the `return` statements that were executed
* `Structured.expr`, `Structured.stmt`, `Structured.block` — the evaluator
* `Block.Contains` — a statement stands inside a block, not counting the bodies of
  functions

## Design decisions

* Expressions, declarations and reassignments do not end anything, so they are those
  of `Scriptlet.Eval.Steps`.
* An execution also tells which `return` statements it has executed and what they
  gave.  Those in the body of a function that is called are not among them.
* Only `Structured.followedBy` puts one execution behind another, so that nothing
  runs behind a return is said in one place.
-/

namespace Scriptlet

/-- **Outcome** of a statement. -/
inductive Outcome where
  /-- The statements behind it run. -/
  | normal
  /-- A `return` was executed, which gave `v`. -/
  | returned (v : Value)
deriving DecidableEq, Inhabited

/-- The value that a `return` gave. -/
def Outcome.value? : Outcome → Option Value
  | .normal => none
  | .returned v => some v

namespace Structured

open Eval

variable {σ : Type}

/-- **Ending** of an execution. -/
structure Ending where
  /-- How it ended. -/
  outcome : Outcome
  /-- The `return` statements that were executed and what they gave, in order. -/
  returns : List (Stmt × Value)

/-- The ending of a statement that neither returns nor holds other statements. -/
def Ending.normal : Ending := ⟨.normal, []⟩

/-- **Sequencing.**  What stands behind runs only after a normal outcome. -/
def followedBy (first rest : Eval σ Ending) : Eval σ Ending := do
  let before ← first
  match before.outcome with
  | .returned _ => return before
  | .normal =>
    let after ← rest
    return ⟨after.outcome, before.returns ++ after.returns⟩

/-- **Statements**, one behind the other. -/
def statements (exec : Stmt → Eval σ Ending) : List Stmt → Eval σ Ending
  | [] => return .normal
  | s :: rest => followedBy (exec s) (statements exec rest)

mutual

/-- **If chain.** -/
def branch (eval : Expr → Eval σ (Option Value)) (run : Block → Eval σ Ending) :
    Conditional → Eval σ Ending
  | ⟨condition, body, next, _⟩ => do
    if ← demandBoolean eval condition then inChild .empty (run body)
    else otherwise eval run next

/-- What an if chain does after a condition that was false. -/
def otherwise (eval : Expr → Eval σ (Option Value)) (run : Block → Eval σ Ending) :
    Otherwise → Eval σ Ending
  | .done => return .normal
  | .elif link => branch eval run link
  | .last body _ => inChild .empty (run body)

end

/-- **While loop.** -/
def repeatWhile (condition : Eval σ Bool) (body : Eval σ Ending) : Nat → Eval σ Ending
  | 0 => outOfFuel
  | fuel + 1 => do
    if ← condition then followedBy body (repeatWhile condition body fuel)
    else return .normal

/-- **Counted loop** from a counter on. -/
def countFrom (stop step : Number) (body : Number → Eval σ Ending) : Nat → Number → Eval σ Ending
  | 0, _ => outOfFuel
  | fuel + 1, counter =>
    if counting stop step counter then
      followedBy (body counter) (countFrom stop step body fuel (counter + step))
    else return .normal

/-- **Counted loop.** -/
def count (eval : Expr → Eval σ (Option Value)) (run : Block → Eval σ Ending)
    (start stop step : Expr) (body : Block) (site : Site) (fuel : Nat) : Eval σ Ending := do
  let first ← demandNumber eval start
  let last ← demandNumber eval stop
  let increment ← demandNumber eval step
  check site (Operation.checkLoop first last increment)
  note (.loopConfigured first last increment)
  countFrom last increment (fun counter => inChild (counterFrame counter) (run body)) fuel first

/-- **Call of a function of the script.**  The value that its body returns is the
value of the call; without one that is void. -/
def callFunction (eval : Expr → Eval σ (Option Value)) (run : Block → Eval σ Ending)
    (f : Function) (skipped : Nat) (args : List Expr) (site : Site) : Eval σ Value := do
  check site (Operation.checkArity f.name f.parameters.length args.length)
  let depth := (← scope).depth
  note (.calling f.name depth)
  note (.enteringScope (depth - skipped + 1))
  let frame ← bindArguments eval f.name (f.parameters.zip args) .empty
  let ending ← inFrame skipped frame (run f.body)
  let v := match ending.outcome with
    | .returned v => v
    | .normal => .void
  let now ← heap
  if now.conforms v f.returnType.spec then return v
  else fail (.returnType f.name f.returnType.spec (now.typeOf v)) (returnSite f)

/-- **Call**, with what happens if nobody answers it. -/
def invoke (host : Host σ) (unknown : UnknownFunctions) (eval : Expr → Eval σ (Option Value))
    (run : Block → Eval σ Ending) (name : String) (args : List Expr) (site : Site) :
    Eval σ (Option Value) := do
  match (← scope).function? name with
  | some (skipped, f) => some <$> callFunction eval run f skipped args site
  | none => callHost host { unknownFunctions := unknown } eval name args site

variable (host : Host σ) (unknown : UnknownFunctions)

mutual

/-- **Evaluation of an expression.** -/
def expr : Nat → Expr → Eval σ (Option Value)
  | 0, _ => outOfFuel
  | fuel + 1, e => do
    note (.evaluating e.kind e.site)
    match e with
    | .literal value _ => return some (.ofLiteral value)
    | .var name site => some <$> lookup name site
    | .unary op operand site => some <$> applyUnary (expr fuel) op operand site
    | .binary op left right site => some <$> applyBinary (expr fuel) op left right site
    | .array elements _ => do
      let vs ← demandAll (expr fuel) elements
      some <$> newArray vs
    | .call name args site =>
      invoke host unknown (expr fuel) (fun b => statements (stmt fuel) b.statements) name args site

/-- **Execution of a statement.** -/
def stmt : Nat → Stmt → Eval σ Ending
  | 0, _ => outOfFuel
  | fuel + 1, s => do
    note (.evaluating s.kind s.site)
    let run (b : Block) : Eval σ Ending := statements (stmt fuel) b.statements
    match s with
    | .declare type name _ value site => do
      declare (expr fuel) type name value site
      return .normal
    | .reassign name nameSite value site => do
      reassign (expr fuel) name nameSite value site
      return .normal
    | .define f => do
      modifyScope (Scope.define f)
      return .normal
    | .call name args site => do
      let _ ← invoke host unknown (expr fuel) run name args site
      return .normal
    | .block body => inChild .empty (run body)
    | .branch chain => branch (expr fuel) run chain
    | .loop condition body _ =>
      repeatWhile (demandBoolean (expr fuel) condition) (inChild .empty (run body)) fuel
    | .count start stop step body site => count (expr fuel) run start stop step body site fuel
    | .ret (some value) _ => do
      let v ← demand (expr fuel) value
      return ⟨.returned v, [(s, v)]⟩
    | .ret none _ => return ⟨.returned .void, [(s, .void)]⟩
    | .empty _ => return .normal

end

/-- **Execution of a block** in the current frame. -/
def block (fuel : Nat) (b : Block) : Eval σ Ending :=
  statements (stmt host unknown fuel) b.statements

end Structured

/-! ## Statements inside statements -/

mutual

/-- The blocks of an if chain. -/
def Conditional.blocks : Conditional → List Block
  | ⟨_, body, next, _⟩ => body :: next.blocks

/-- The blocks of the rest of an if chain. -/
def Otherwise.blocks : Otherwise → List Block
  | .done => []
  | .elif link => link.blocks
  | .last body _ => [body]

end

/-- The blocks that a statement runs itself.  The body of a function definition is
none of them: it runs when the function is called. -/
def Stmt.blocks : Stmt → List Block
  | .block body | .loop _ body _ | .count _ _ _ body _ => [body]
  | .branch chain => chain.blocks
  | .declare .. | .reassign .. | .define .. | .call .. | .ret .. | .empty .. => []

/-- **Nesting.**  The statement `s` is `t` or stands inside of it. -/
inductive Stmt.Inside (s : Stmt) : Stmt → Prop where
  /-- The statement itself. -/
  | self : Inside s s
  /-- A statement of one of its blocks. -/
  | within {t u : Stmt} {b : Block} :
      b ∈ t.blocks → u ∈ b.statements → Inside s u → Inside s t

/-- **Containment.**  The statement `s` stands inside the block. -/
def Block.Contains (b : Block) (s : Stmt) : Prop := ∃ t ∈ b.statements, s.Inside t

end Scriptlet
