import Scriptlet.Eval.Run

/-!
# Watched evaluation

An evaluation of the language under observation.  A watch keeps what a machine
itself does not: as what the names of each live frame were declared, which frames
a call has set aside, and all moments that the run went through.

## Main definitions

* `Moment` — what can be seen of a run at one point
* `Watch` — what is kept during a run, with the state of the host
* `Watch.expr`, `Watch.stmt`, `Watch.block` — the watched evaluator
* `Machine.now`, `Machine.forget` — the present moment, and the machine without
  the watch
* `Machine.execute`, `Machine.executeWatched` — some programs, one after the other

## Design decisions

* A watch is part of the state of the host, where the evaluator neither reads nor
  changes it.  So all constructs of `Scriptlet.Eval.Steps` are used as they are;
  only calls are written out again, because they set frames aside.
* A moment is kept before and after every expression and every statement, also if
  that fails.
* Frames that a call has set aside are still alive, so a moment has them as well.
-/

namespace Scriptlet

/-- **Moment.**  What can be seen of a run at one point. -/
structure Moment where
  /-- The arrays. -/
  heap : Heap
  /-- The chain of frames, innermost first. -/
  scope : Scope
  /-- For each frame of the chain, as what its names were declared last. -/
  types : List (Bindings TypeSpec)
  /-- For each frame that was opened, the frames that were set aside for it, and as
  what their names were declared last. -/
  aside : List (Scope × List (Bindings TypeSpec))

/-- **Watch** over a run with a host of state `σ`. -/
structure Watch (σ : Type) where
  /-- For each frame of the chain, as what its names were declared last. -/
  types : List (Bindings TypeSpec)
  /-- For each frame that was opened, the frames that were set aside for it. -/
  aside : List (Scope × List (Bindings TypeSpec))
  /-- The moments so far, the latest first. -/
  past : List Moment
  /-- The state of the host. -/
  host : σ

/-- The watch at the start of a program. -/
def Watch.start {σ : Type} (host : σ) : Watch σ := ⟨[[]], [], [], host⟩

/-- A host under observation, which knows nothing of it. -/
def Host.watched {σ : Type} (host : Host σ) : Host (Watch σ) where
  call name args site
    | ⟨heap, ⟨types, aside, past, state⟩, log⟩ =>
      match host.call name args site ⟨heap, state, log⟩ with
      | .ok reply ⟨heap, state, log⟩ => .ok reply ⟨heap, ⟨types, aside, past, state⟩, log⟩
      | .error fault ⟨heap, state, log⟩ => .error fault ⟨heap, ⟨types, aside, past, state⟩, log⟩

namespace Machine

variable {σ : Type}

/-- The present moment. -/
def now (m : Machine (Watch σ)) : Moment :=
  ⟨m.world.heap, m.scope, m.world.host.types, m.world.host.aside⟩

/-- The moments of the run so far, the latest first. -/
def past (m : Machine (Watch σ)) : List Moment := m.world.host.past

/-- The machine without the watch. -/
def forget (m : Machine (Watch σ)) : Machine σ :=
  ⟨m.scope, ⟨m.world.heap, m.world.host.host, m.world.log⟩⟩

/-- Keeps the present moment. -/
def look (m : Machine (Watch σ)) : Machine (Watch σ) :=
  { m with world.host.past := m.now :: m.past }

/-- Opens a frame on top of the chain without its `skipped` innermost frames. -/
def enter (skipped : Nat) (frame : Frame) (types : Bindings TypeSpec) (m : Machine (Watch σ)) :
    Machine (Watch σ) :=
  { m with
    scope := frame :: m.scope.drop skipped
    world.host.types := types :: m.world.host.types.drop skipped
    world.host.aside :=
      (m.scope.take skipped, m.world.host.types.take skipped) :: m.world.host.aside }

/-- Closes the frame that was opened on `before`. -/
def leave (skipped : Nat) (before m : Machine (Watch σ)) : Machine (Watch σ) :=
  { m with
    scope := before.scope.take skipped ++ m.scope.drop 1
    world.host.types := before.world.host.types.take skipped ++ m.world.host.types.drop 1
    world.host.aside := before.world.host.aside }

end Machine

namespace Watch

open Eval

variable {σ α : Type}

/-- **Looking** before and after a run. -/
def looking (x : Eval (Watch σ) α) : Eval (Watch σ) α := fun m =>
  match x m.look with
  | .ok a m' => .ok a m'.look
  | .error e m' => .error e m'.look

/-- Keeps as what a name of the innermost frame was declared. -/
def declared (name : String) (spec : TypeSpec) : Eval (Watch σ) Unit := fun m =>
  .ok () { m with world.host.types := m.world.host.types.modifyHead (·.insert name spec) }

/-- **Running in a frame** whose names were declared as `types`. -/
def inFrame (skipped : Nat) (frame : Frame) (types : Bindings TypeSpec)
    (body : Eval (Watch σ) α) : Eval (Watch σ) α := fun m =>
  match body (m.enter skipped frame types) with
  | .ok a m' => .ok a (m.leave skipped m')
  | .error e m' => .error e (m.leave skipped m')

/-- **Running in a new frame**, which the evaluator has opened already and will
close. -/
def inside (types : Bindings TypeSpec) (body : Eval (Watch σ) α) : Eval (Watch σ) α := fun m =>
  let close (m' : Machine (Watch σ)) : Machine (Watch σ) :=
    { m' with
      world.host.types := m'.world.host.types.drop 1
      world.host.aside := m.world.host.aside }
  let opened : Machine (Watch σ) :=
    { m with
      world.host.types := types :: m.world.host.types
      world.host.aside := ([], []) :: m.world.host.aside }
  match body opened with
  | .ok a m' => .ok a (close m')
  | .error e m' => .error e (close m')

/-- As what the counter of a counted loop is declared. -/
def counterTypes : Bindings TypeSpec := [(counterName, .scalar .number)]

/-- As what the names of parameters are declared; the last parameter of a name
counts. -/
def parameterTypes (ps : List Parameter) : Bindings TypeSpec :=
  ps.foldl (fun types p => types.insert p.name p.type.spec) []

/-- **Watched call** of a function of the script, as `Eval.callFunction`. -/
def callFunction (eval : Expr → Eval (Watch σ) (Option Value))
    (run : Block → Eval (Watch σ) (Option Value)) (f : Function) (skipped : Nat)
    (args : List Expr) (site : Site) : Eval (Watch σ) Value := do
  check site (Operation.checkArity f.name f.parameters.length args.length)
  let depth := (← scope).depth
  note (.calling f.name depth)
  note (.enteringScope (depth - skipped + 1))
  let frame ← bindArguments eval f.name (f.parameters.zip args) .empty
  let v := (← inFrame skipped frame (parameterTypes f.parameters) (run f.body)).getD .void
  let now ← heap
  if now.conforms v f.returnType.spec then return v
  else fail (.returnType f.name f.returnType.spec (now.typeOf v)) (returnSite f)

/-- **Watched call**, as `Eval.invoke`. -/
def invoke (host : Host σ) (config : Config) (eval : Expr → Eval (Watch σ) (Option Value))
    (run : Block → Eval (Watch σ) (Option Value)) (name : String) (args : List Expr)
    (site : Site) : Eval (Watch σ) (Option Value) := do
  match (← scope).function? name with
  | some (skipped, f) => some <$> callFunction eval run f skipped args site
  | none => callHost host.watched config eval name args site

variable (host : Host σ) (config : Config)

mutual

/-- **Watched evaluation of an expression**, as `Eval.expr`. -/
def expr : Nat → Expr → Eval (Watch σ) (Option Value)
  | 0, _ => outOfFuel
  | fuel + 1, e => looking do
    note (.evaluating e.kind e.site)
    match e with
    | .literal value _ => return some (.ofLiteral value)
    | .var name site => some <$> lookup name site
    | .unary op operand site => some <$> applyUnary (expr fuel) op operand site
    | .binary op left right site => some <$> applyBinary (expr fuel) op left right site
    | .array elements _ => do
      let vs ← demandAll (expr fuel) elements
      some <$> newArray vs
    | .call name args site =>
      invoke host config (expr fuel) (fun b => statements config (stmt fuel) b.statements)
        name args site

/-- **Watched execution of a statement**, as `Eval.stmt`. -/
def stmt : Nat → Stmt → Eval (Watch σ) (Option Value)
  | 0, _ => outOfFuel
  | fuel + 1, s => looking do
    note (.evaluating s.kind s.site)
    let run (b : Block) : Eval (Watch σ) (Option Value) := statements config (stmt fuel) b.statements
    match s with
    | .declare type name _ value site => do
      declare (expr fuel) type name value site
      declared name type.spec
      return none
    | .reassign name nameSite value site => do
      reassign (expr fuel) name nameSite value site
      return none
    | .define f => do
      modifyScope (Scope.define f)
      return none
    | .call name args site => invoke host config (expr fuel) run name args site
    | .block body => inChild .empty (inside [] (run body))
    | .branch chain => branch (expr fuel) (fun b => inside [] (run b)) chain
    | .loop condition body _ =>
      repeatWhile (demandBoolean (expr fuel) condition) (inChild .empty (inside [] (run body))) fuel
    | .count start stop step body site =>
      count (expr fuel) (fun b => inside counterTypes (run b)) start stop step body site fuel
    | .ret (some value) _ => some <$> demand (expr fuel) value
    | .ret none _ => return some .void
    | .empty _ => return none

end

/-- **Watched execution of a block** in the current frame, as `Eval.block`. -/
def block (fuel : Nat) (b : Block) : Eval (Watch σ) (Option Value) :=
  statements config (stmt host config fuel) b.statements

end Watch

/-! ## Sequences of programs -/

/-- **Run** of one program: its settings, its fuel and its statements. -/
structure Run where
  /-- The settings. -/
  config : Config
  /-- The fuel. -/
  fuel : Nat
  /-- The program. -/
  program : Block

/-- The machine that an evaluation ends with, whether it succeeds or not. -/
def Eval.final {σ α : Type} : EStateM.Result Stop (Machine σ) α → Machine σ
  | .ok _ m => m
  | .error _ m => m

/-- The machine after some programs, each of which starts with what the one before
it has left, also if that has failed. -/
def Machine.execute {σ : Type} (host : Host σ) (m : Machine σ) (runs : List Run) : Machine σ :=
  runs.foldl (fun m r => Eval.final (Eval.block host r.config r.fuel r.program m)) m

/-- The same under observation. -/
def Machine.executeWatched {σ : Type} (host : Host σ) (m : Machine (Watch σ)) (runs : List Run) :
    Machine (Watch σ) :=
  runs.foldl (fun m r => Eval.final (Watch.block host r.config r.fuel r.program m)) m

end Scriptlet
