import Scriptlet.Eval.Basic

/-!
# Evaluation: constructs

What each construct of the language does, given how its parts are evaluated.
`Scriptlet.Eval.Run` closes the recursion.

## Main definitions

* `Eval.demand` — the value of an expression that has to have one
* `Eval.applyUnary`, `Eval.applyBinary` — operations
* `Eval.declare`, `Eval.reassign` — variables
* `Eval.statements` — the statements of a block
* `Eval.branch`, `Eval.repeatWhile`, `Eval.countFrom` — control flow
* `Eval.bindArguments`, `Eval.callFunction`, `Eval.invoke` — calls

## Design decisions

* An evaluation of an expression gives `none` only for a call that has no result;
  everything that needs a value goes through `demand`.
* Here `eval` always stands for the evaluation of the expressions inside and
  `exec` for that of the statements inside.
* Loops count their own iterations against the fuel, so a loop can run as often
  as there is fuel, at any depth.
-/

namespace Scriptlet

namespace Eval

variable {σ : Type}

/-! ### Expressions -/

/-- The value of an expression that has to have one. -/
def demand (eval : Expr → Eval σ (Option Value)) (e : Expr) : Eval σ Value := do
  match ← eval e with
  | some v => return v
  | none => fail .noValue e.site

/-- The values of expressions, evaluated from left to right. -/
def demandAll (eval : Expr → Eval σ (Option Value)) : List Expr → Eval σ (List Value)
  | [] => return []
  | e :: es => do
    let v ← demand eval e
    let vs ← demandAll eval es
    return v :: vs

/-- The number that an expression gives. -/
def demandNumber (eval : Expr → Eval σ (Option Value)) (e : Expr) : Eval σ Number := do
  let v ← demand eval e
  check e.site (Operation.number (← heap) v)

/-- The truth value that an expression gives. -/
def demandBoolean (eval : Expr → Eval σ (Option Value)) (e : Expr) : Eval σ Bool := do
  let v ← demand eval e
  check e.site (Operation.boolean (← heap) v)

/-- The value of a variable. -/
def lookup (name : String) (site : Site) : Eval σ Value := do
  match (← scope).find? name with
  | some v => return v
  | none => fail (.undeclaredVariable name) site

/-- **Prefix operation.** -/
def applyUnary (eval : Expr → Eval σ (Option Value)) (op : UnaryOp) (operand : Expr)
    (site : Site) : Eval σ Value := do
  let v ← demand eval operand
  check site (Operation.unary (← heap) op v)

/-- **Infix operation.**  Both operands are evaluated, the left one first. -/
def applyBinary (eval : Expr → Eval σ (Option Value)) (op : BinaryOp) (left right : Expr)
    (site : Site) : Eval σ Value := do
  let v ← demand eval left
  let w ← demand eval right
  check site (Operation.binary (← heap) op v w)

/-! ### Variables -/

/-- Binds a variable in the innermost frame. -/
def bindVariable (name : String) (v : Value) : Eval σ Unit := do
  note (.declaring name (← scope).depth)
  modifyScope (Scope.declare name v)

/-- **Declaration.**  An expression without a value counts as void.  The value has
to conform to the declared type, and an array of unknown element type takes that
of the declared type. -/
def declare (eval : Expr → Eval σ (Option Value)) (type : DeclaredType) (name : String)
    (value : Expr) (site : Site) : Eval σ Unit := do
  let v := (← eval value).getD .void
  check site (Operation.checkDeclared (← heap) name type.spec v)
  modifyHeap (·.adopt v type.spec)
  bindVariable name v

/-- **Declaration without a type.**  Any value will do. -/
def declareUntyped (eval : Expr → Eval σ (Option Value)) (name : String) (value : Expr) :
    Eval σ Unit := do
  let v := (← eval value).getD .void
  bindVariable name v

/-- What replaces a value, if it takes over the element type of an array. -/
def adoptHeld (held v : Value) (heap : Heap) : Heap :=
  match held with
  | .array a => heap.adopt v (.arrayOf (heap.element a))
  | _ => heap

/-- **Reassignment.**  The nearest variable of that name gets a value of the same
shape. -/
def reassign (eval : Expr → Eval σ (Option Value)) (name : String) (nameSite : Site)
    (value : Expr) (site : Site) : Eval σ Unit := do
  let v := (← eval value).getD .void
  match (← scope).find? name with
  | none => fail (.undeclaredTarget name) nameSite
  | some held =>
    let now ← heap
    if now.sameShape held v then
      modifyHeap (adoptHeld held v)
      modifyScope fun scope => (scope.assign? name v).getD scope
    else fail (.heldType name (now.typeOf held) (now.typeOf v)) site

/-! ### Control flow -/

/-- **Statements of a block.**  The first one whose value ends the block gives the
result; the others behind it do not run. -/
def statements (config : Config) (exec : Stmt → Eval σ (Option Value)) :
    List Stmt → Eval σ (Option Value)
  | [] => return none
  | s :: rest => do
    match ← exec s with
    | some v => if config.endsBlock s then return some v else statements config exec rest
    | none => statements config exec rest

mutual

/-- **If chain.**  The first link whose condition is true runs its block in a
frame of its own. -/
def branch (eval : Expr → Eval σ (Option Value)) (run : Block → Eval σ (Option Value)) :
    Conditional → Eval σ (Option Value)
  | ⟨condition, body, next, _⟩ => do
    if ← demandBoolean eval condition then inChild .empty (run body)
    else otherwise eval run next

/-- What an if chain does after a condition that was false. -/
def otherwise (eval : Expr → Eval σ (Option Value)) (run : Block → Eval σ (Option Value)) :
    Otherwise → Eval σ (Option Value)
  | .done => return none
  | .elif link => branch eval run link
  | .last body _ => inChild .empty (run body)

end

/-- **While loop.**  The condition is evaluated before every iteration; the first
iteration that has a value ends the loop with it. -/
def repeatWhile (condition : Eval σ Bool) (body : Eval σ (Option Value)) :
    Nat → Eval σ (Option Value)
  | 0 => outOfFuel
  | fuel + 1 => do
    if ← condition then
      match ← body with
      | some v => return some v
      | none => repeatWhile condition body fuel
    else return none

/-- Whether a counted loop goes on: the counter has not passed the end in the
direction of the step. -/
def counting (stop step counter : Number) : Bool :=
  (0 < step && counter ≤ stop) || (step < 0 && stop ≤ counter)

/-- **Counted loop** from a counter on.  The counter belongs to the loop; the body
only gets its value. -/
def countFrom (stop step : Number) (body : Number → Eval σ (Option Value)) :
    Nat → Number → Eval σ (Option Value)
  | 0, _ => outOfFuel
  | fuel + 1, counter => do
    if counting stop step counter then
      match ← body counter with
      | some v => return some v
      | none => countFrom stop step body fuel (counter + step)
    else return none

/-- The name of the counter in the body of a counted loop. -/
def counterName : String := "idx"

/-- The frame of one iteration of a counted loop. -/
def counterFrame (counter : Number) : Frame :=
  .ofVars [(counterName, .number counter)]

/-- **Counted loop.**  Start, end and step are evaluated once, in this order. -/
def count (eval : Expr → Eval σ (Option Value)) (run : Block → Eval σ (Option Value))
    (start stop step : Expr) (body : Block) (site : Site) (fuel : Nat) :
    Eval σ (Option Value) := do
  let first ← demandNumber eval start
  let last ← demandNumber eval stop
  let increment ← demandNumber eval step
  check site (Operation.checkLoop first last increment)
  note (.loopConfigured first last increment)
  countFrom last increment (fun counter => inChild (counterFrame counter) (run body)) fuel first

/-! ### Calls -/

/-- **Arguments.**  Each argument is evaluated in the scope of the caller and has
to conform to the type of its parameter; then it is bound in the frame of the
call. -/
def bindArguments (eval : Expr → Eval σ (Option Value)) (function : String) :
    List (Parameter × Expr) → Frame → Eval σ Frame
  | [], frame => return frame
  | (p, e) :: rest, frame => do
    let v ← demand eval e
    let now ← heap
    if now.conforms v p.type.spec then
      modifyHeap (·.adopt v p.type.spec)
      bindArguments eval function rest (frame.declare p.name v)
    else fail (.argumentType p.name function p.type.spec (now.typeOf v)) e.site

/-- The site of a fault in the result of a function: that of the first `return`
among the statements of its body, or else of the function itself. -/
def returnSite (f : Function) : Site :=
  (f.body.return?.map Stmt.site).getD f.site

/-- **Call of a function of the script** that is defined `skipped` frames out.  A
body that ends without a value gives void. -/
def callFunction (eval : Expr → Eval σ (Option Value)) (run : Block → Eval σ (Option Value))
    (f : Function) (skipped : Nat) (args : List Expr) (site : Site) : Eval σ Value := do
  check site (Operation.checkArity f.name f.parameters.length args.length)
  let depth := (← scope).depth
  note (.calling f.name depth)
  note (.enteringScope (depth - skipped + 1))
  let frame ← bindArguments eval f.name (f.parameters.zip args) .empty
  let v := (← inFrame skipped frame (run f.body)).getD .void
  let now ← heap
  if now.conforms v f.returnType.spec then return v
  else fail (.returnType f.name f.returnType.spec (now.typeOf v)) (returnSite f)

/-- **Call of a function that the script does not define.** -/
def callHost (host : Host σ) (config : Config) (eval : Expr → Eval σ (Option Value))
    (name : String) (args : List Expr) (site : Site) : Eval σ (Option Value) := do
  let vs ← demandAll eval args
  match ← ask host name vs site with
  | .returned v => return some v
  | .finished => return none
  | .unrecognized =>
    match config.unknownFunctions with
    | .error => fail (.undefinedFunction name) site
    | .ignore =>
      note (.ignoringUnknown name site)
      return none

/-- **Call.**  The nearest function of the script of that name, or else the host. -/
def invoke (host : Host σ) (config : Config) (eval : Expr → Eval σ (Option Value))
    (run : Block → Eval σ (Option Value)) (name : String) (args : List Expr) (site : Site) :
    Eval σ (Option Value) := do
  match (← scope).function? name with
  | some (skipped, f) => some <$> callFunction eval run f skipped args site
  | none => callHost host config eval name args site

end Eval

end Scriptlet
