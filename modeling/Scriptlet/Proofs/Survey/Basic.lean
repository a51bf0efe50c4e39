import Mathlib.Logic.Relation
import Scriptlet.Proofs.Congruence.Basic
import Scriptlet.Proofs.Watch.Basic

/-!
# Surveyed evaluation

An evaluation of the language that knows where in the text it is.  A survey keeps for each
live frame which construct it was opened for and where the functions bound in it are
defined, and it keeps which nodes were evaluated and what frames were opened.

## Main definitions

* `Place`, `Construct` — where a statement stands, and a pair of braces
* `Place.statement?` — the statement at a place
* `Place.enclosing` — the constructs around a place
* `Node`, `Node.StandsIn` — an expression or a statement, and in which statement it stands
* `Survey` — what is kept during a run, with the state of the host
* `Survey.expr`, `Survey.stmt`, `Survey.block` — the surveyed evaluator
* `Survey.execute` — some programs, one after the other

## Design decisions

* A survey is part of the state of the host, where the evaluator neither reads nor changes
  it.  So the constructs of `Scriptlet.Eval.Steps` are used as they are.
* Equal statements can stand at several places, so a place is handed down beside each node.
  Expressions have no places of their own; an expression has the place of its statement.
* Each frame of the machine has an origin in the survey, which comes and goes with it.
  Nothing is looked up in the program: where the body of a function stands is what the
  origin of its frame has kept at the definition.
-/

namespace Scriptlet

/-! ## Places -/

/-- **Place** of a statement in a program. -/
inductive Place where
  /-- Among the statements of the program. -/
  | top (i : Nat)
  /-- Among the statements of one of the blocks of the statement at another place. -/
  | inside (outer : Place) (block i : Nat)
deriving DecidableEq, Inhabited

/-- **Construct** with braces: one of the blocks of the statement at a place. -/
structure Construct where
  /-- The place of the statement. -/
  place : Place
  /-- The number of the block. -/
  block : Nat
deriving DecidableEq, Inhabited

/-- The place of a statement of the construct. -/
def Construct.statement (c : Construct) (i : Nat) : Place := .inside c.place c.block i

/-- **Enclosing constructs** of a place, innermost first. -/
def Place.enclosing : Place → List Construct
  | .top _ => []
  | .inside outer block _ => ⟨outer, block⟩ :: outer.enclosing

/-- The blocks that are written in a statement: those that it runs, or the body of the
function that it defines. -/
def Stmt.bodies : Stmt → List Block
  | .define g => [g.body]
  | s => s.blocks

/-- **The statement at a place** of a program that consists of the given statements. -/
def Place.statement? (program : List Stmt) : Place → Option Stmt
  | .top i => program[i]?
  | .inside outer block i => do
    let s ← outer.statement? program
    let body ← s.bodies[block]?
    body.statements[i]?

/-! ## Nodes -/

/-- **Node** of a program. -/
inductive Node where
  /-- A statement. -/
  | stmt (s : Stmt)
  /-- An expression. -/
  | expr (e : Expr)

/-- The expressions that an expression is made of. -/
def Expr.parts : Expr → List Expr
  | .literal .. | .var .. => []
  | .unary _ operand _ => [operand]
  | .binary _ left right _ => [left, right]
  | .array elements _ => elements
  | .call _ args _ => args

/-- The expressions of a statement that are in none of its blocks. -/
def Stmt.expressions : Stmt → List Expr
  | .declare _ _ _ value _ | .reassign _ _ value _ => [value]
  | .define .. | .block .. | .empty .. => []
  | .call _ args _ => args
  | .branch chain => chain.conditions
  | .loop condition _ _ => [condition]
  | .count start stop step _ _ => [start, stop, step]
  | .ret value _ => value.toList

/-- **Standing in a statement**, but in none of its blocks: the statement itself, its
expressions and what these are made of. -/
def Node.StandsIn (s : Stmt) : Node → Prop
  | .stmt t => t = s
  | .expr e => ∃ root ∈ s.expressions,
      Relation.ReflTransGen (fun whole part => part ∈ Expr.parts whole) root e

theorem Node.StandsIn.part {s : Stmt} {whole part : Expr} (h : (Node.expr whole).StandsIn s)
    (mem : part ∈ whole.parts) : (Node.expr part).StandsIn s := by
  obtain ⟨root, isRoot, path⟩ := h
  exact ⟨root, isRoot, path.tail mem⟩

theorem Node.standsIn_of_mem {s : Stmt} {e : Expr} (h : e ∈ s.expressions) :
    (Node.expr e).StandsIn s := ⟨e, h, .refl⟩

/-- Every expression stands in some statement. -/
theorem Node.standsIn_ret (e : Expr) : (Node.expr e).StandsIn (.ret (some e) default) :=
  standsIn_of_mem (List.mem_singleton_self e)

/-! ## Surveys -/

/-- **Origin** of a frame. -/
structure Origin where
  /-- What the frame was opened for; nothing for the global frame. -/
  construct : Option Construct
  /-- Where each of the functions that are bound in the frame is defined. -/
  homes : Bindings Place

/-- **Visit** of a node: its evaluation begins. -/
structure Visit where
  /-- The node. -/
  node : Node
  /-- The place of the statement that the node stands in. -/
  place : Place
  /-- What each frame of the chain was opened for, innermost first. -/
  frames : List (Option Construct)
  /-- The chain of frames. -/
  scope : Scope

/-- **Opener.**  What a frame is opened for. -/
inductive Opener where
  /-- A block that stands alone. -/
  | block
  /-- A block of an `if` chain. -/
  | branch
  /-- An iteration of a while loop. -/
  | iteration
  /-- An iteration of a counted loop. -/
  | countedIteration
  /-- A call of a function of the script. -/
  | call (g : Function)

/-- The variables that are bound in a new frame. -/
def Opener.names : Opener → List String
  | .block | .branch | .iteration => []
  | .countedIteration => [Eval.counterName]
  | .call g => g.parameters.map Parameter.name

/-- **Opening** of a frame. -/
structure Opening where
  /-- What the frame is opened for. -/
  opener : Opener
  /-- The innermost frame when the block in it begins. -/
  frame : Option Frame

/-- **Survey** of a run with a host of state `σ`. -/
structure Survey (σ : Type) where
  /-- For each frame of the chain its origin. -/
  origins : List Origin
  /-- The visits so far, the latest first. -/
  visits : List Visit
  /-- The openings so far, the latest first. -/
  openings : List Opening
  /-- The state of the host. -/
  host : σ

/-- A host under survey, which knows nothing of it. -/
def Host.surveyed {σ : Type} (host : Host σ) : Host (Survey σ) where
  call name args site
    | ⟨heap, ⟨origins, visits, openings, state⟩, log⟩ =>
      match host.call name args site ⟨heap, state, log⟩ with
      | .ok reply ⟨heap, state, log⟩ => .ok reply ⟨heap, ⟨origins, visits, openings, state⟩, log⟩
      | .error fault ⟨heap, state, log⟩ =>
        .error fault ⟨heap, ⟨origins, visits, openings, state⟩, log⟩

namespace Machine

variable {σ : Type}

/-- The machine without the survey. -/
def unsurveyed (m : Machine (Survey σ)) : Machine σ :=
  ⟨m.scope, ⟨m.world.heap, m.world.host.host, m.world.log⟩⟩

/-- The machine with a new survey, which has the given origins. -/
def survey (origins : List Origin) (m : Machine σ) : Machine (Survey σ) :=
  ⟨m.scope, ⟨m.world.heap, ⟨origins, [], [], m.world.host⟩, m.world.log⟩⟩

end Machine

namespace Survey

open Eval

variable {σ α : Type}

/-- Visits a node. -/
def visit (node : Node) (place : Place) : Eval (Survey σ) Unit
  | ⟨scope, ⟨heap, ⟨origins, visits, openings, state⟩, log⟩⟩ =>
    let seen : Visit := ⟨node, place, origins.map Origin.construct, scope⟩
    .ok () ⟨scope, ⟨heap, ⟨origins, seen :: visits, openings, state⟩, log⟩⟩

/-- **Surveying a new frame**, which the evaluator has opened for a block of `construct` and
will close. -/
def inside (skipped : Nat) (construct : Construct) (opener : Opener)
    (body : Eval (Survey σ) α) : Eval (Survey σ) α
  | ⟨scope, ⟨heap, ⟨origins, visits, openings, state⟩, log⟩⟩ =>
    let opening : Opening := ⟨opener, scope.head?⟩
    let opened := ⟨some construct, []⟩ :: origins.drop skipped
    let close (m : Machine (Survey σ)) : Machine (Survey σ) :=
      { m with world.host.origins := origins.take skipped ++ m.world.host.origins.drop 1 }
    match body ⟨scope, ⟨heap, ⟨opened, visits, opening :: openings, state⟩, log⟩⟩ with
    | .ok a m => .ok a (close m)
    | .error e m => .error e (close m)

/-- The place of the definition that the origin `skipped` frames out has kept of a name. -/
def home (skipped : Nat) (name : String) (origins : List Origin) : Place :=
  ((origins[skipped]?).bind fun origin => origin.homes.find? name).getD default

/-- The nearest function of that name and the place of its definition, with the number of
frames inside the one that defines it. -/
def resolve (name : String) : Eval (Survey σ) (Option (Nat × Function × Place)) := fun m =>
  .ok ((m.scope.function? name).map fun (skipped, g) =>
    (skipped, g, home skipped name m.world.host.origins)) m

/-- Binds a function, whose definition stands at `place`, in the innermost frame. -/
def define (g : Function) (place : Place) : Eval (Survey σ) Unit
  | ⟨scope, ⟨heap, ⟨origins, visits, openings, state⟩, log⟩⟩ =>
    let keep (origin : Origin) : Origin := { origin with homes := origin.homes.insert g.name place }
    .ok () ⟨scope.define g, ⟨heap, ⟨origins.modifyHead keep, visits, openings, state⟩, log⟩⟩

/-- **Surveyed call**, as `Eval.invoke`. -/
def invoke (host : Host σ) (config : Config) (eval : Expr → Eval (Survey σ) (Option Value))
    (run : Construct → Block → Eval (Survey σ) (Option Value)) (name : String)
    (args : List Expr) (site : Site) : Eval (Survey σ) (Option Value) := do
  match ← resolve name with
  | some (skipped, g, home) =>
    let body (b : Block) := inside skipped ⟨home, 0⟩ (.call g) (run ⟨home, 0⟩ b)
    some <$> callFunction eval body g skipped args site
  | none => callHost host.surveyed config eval name args site

variable (host : Host σ) (config : Config)

mutual

/-- **Surveyed evaluation of an expression** of the statement at a place, as
`Eval.expr`. -/
def expr : Nat → Place → Expr → Eval (Survey σ) (Option Value)
  | 0, _, _ => outOfFuel
  | fuel + 1, place, e => do
    visit (.expr e) place
    note (.evaluating e.kind e.site)
    match e with
    | .literal value _ => return some (.ofLiteral value)
    | .var name site => some <$> lookup name site
    | .unary op operand site => some <$> applyUnary (expr fuel place) op operand site
    | .binary op left right site => some <$> applyBinary (expr fuel place) op left right site
    | .array elements _ => do
      let vs ← demandAll (expr fuel place) elements
      some <$> newArray vs
    | .call name args site =>
      invoke host config (expr fuel place)
        (fun c b => statementsFrom config (fun i => stmt fuel (c.statement i)) 0 b.statements)
        name args site

/-- **Surveyed execution of the statement** at a place, as `Eval.stmt`. -/
def stmt : Nat → Place → Stmt → Eval (Survey σ) (Option Value)
  | 0, _, _ => outOfFuel
  | fuel + 1, place, s => do
    visit (.stmt s) place
    note (.evaluating s.kind s.site)
    let run (c : Construct) (b : Block) : Eval (Survey σ) (Option Value) :=
      statementsFrom config (fun i => stmt fuel (c.statement i)) 0 b.statements
    let body (opener : Opener) (n : Nat) (b : Block) : Eval (Survey σ) (Option Value) :=
      inside 0 ⟨place, n⟩ opener (run ⟨place, n⟩ b)
    match s with
    | .declare type name _ value site => do
      declare (expr fuel place) type name value site
      return none
    | .reassign name nameSite value site => do
      reassign (expr fuel place) name nameSite value site
      return none
    | .define g => do
      define g place
      return none
    | .call name args site => invoke host config (expr fuel place) run name args site
    | .block b => inChild .empty (body .block 0 b)
    | .branch chain => branchFrom (expr fuel place) (body .branch) 0 chain
    | .loop condition b _ =>
      repeatWhile (demandBoolean (expr fuel place) condition)
        (inChild .empty (body .iteration 0 b)) fuel
    | .count start stop step b site =>
      count (expr fuel place) (body .countedIteration 0) start stop step b site fuel
    | .ret (some value) _ => some <$> demand (expr fuel place) value
    | .ret none _ => return some .void
    | .empty _ => return none

end

/-- **Surveyed execution of a program** in the current frame, as `Eval.block`.  It stands
behind the `before` statements that were there first. -/
def block (fuel before : Nat) (program : Block) : Eval (Survey σ) (Option Value) :=
  statementsFrom config (fun i => stmt host config fuel (.top i)) before program.statements

/-- **Surveyed execution of some programs**, one after the other, as `Machine.execute`. -/
def execute : Nat → List Run → Machine (Survey σ) → Machine (Survey σ)
  | _, [], m => m
  | before, r :: runs, m =>
    execute (before + r.program.statements.length) runs
      (final (block host r.config r.fuel before r.program m))

end Survey

end Scriptlet
