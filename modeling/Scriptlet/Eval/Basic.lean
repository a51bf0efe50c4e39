import Scriptlet.Host.Basic
import Scriptlet.Value.Operation

/-!
# Evaluation: state and steps

The evaluator works on a machine: the scope of the script, and the world that it
shares with its host.

## Main definitions

* `Config` — the two settings of an evaluation
* `Machine` — the whole state
* `Stop` — why an evaluation ended early
* `Eval` — the monad of the evaluator
* `Eval.inFrame`, `Eval.inChild` — runs something in a new frame

## Design decisions

* The state is kept when an evaluation fails, except that frames are closed:
  `inFrame` closes its frame in both cases.
* A call runs on the chain of the frame that defines the function.  The caller's
  inner frames are set aside and put back, so nothing in between can touch them.
* An evaluation has fuel, and running out of it is neither a result nor an error
  of the script.
-/

namespace Scriptlet

/-- **Block results.**  Which statements end the block that they stand in. -/
inductive BlockResults where
  /-- Every statement that has a value. -/
  | firstValue
  /-- Only those that executed a `return`. -/
  | explicitReturn
deriving DecidableEq, Inhabited

/-- **Unknown functions.**  What happens at a call that nobody answers. -/
inductive UnknownFunctions where
  /-- It is an error. -/
  | error
  /-- The call has no value, and a warning is logged. -/
  | ignore
deriving DecidableEq, Inhabited

/-- **Settings** of an evaluation. -/
structure Config where
  /-- Which statements end a block. -/
  blockResults : BlockResults := .firstValue
  /-- What happens at a call that nobody answers. -/
  unknownFunctions : UnknownFunctions := .error
deriving DecidableEq, Inhabited

/-- Whether a value of the statement is the result of the block around it. -/
def Config.endsBlock (config : Config) (s : Stmt) : Bool :=
  match config.blockResults with
  | .firstValue => true
  | .explicitReturn => s.carriesReturn

/-- **Machine.**  The state of an evaluation with a host of state `σ`. -/
structure Machine (σ : Type) where
  /-- The frames of the script. -/
  scope : Scope
  /-- What the host works on. -/
  world : World σ

/-- The state at the start of a program. -/
def Machine.start {σ : Type} (host : σ) (log : Log) : Machine σ :=
  ⟨.global, ⟨.empty, host, log⟩⟩

/-- **Early end** of an evaluation. -/
inductive Stop where
  /-- The script failed. -/
  | fault (e : RuntimeError)
  /-- The fuel is used up. -/
  | outOfFuel
deriving DecidableEq, Inhabited

/-- **Evaluation** with a result of type `α`. -/
abbrev Eval (σ α : Type) := EStateM Stop (Machine σ) α

namespace Eval

variable {σ α : Type}

/-- Ends with a fault. -/
def fail (fault : Fault) (site : Site) : Eval σ α :=
  throw (.fault ⟨fault, site⟩)

/-- Ends because the fuel is used up. -/
def outOfFuel : Eval σ α :=
  throw .outOfFuel

/-- Passes on the result of a check, whose fault belongs to `site`. -/
def check (site : Site) (r : Except Fault α) : Eval σ α :=
  match r with
  | .ok a => pure a
  | .error fault => fail fault site

/-- The scope. -/
def scope : Eval σ Scope := fun m => .ok m.scope m

/-- Changes the scope. -/
def modifyScope (f : Scope → Scope) : Eval σ Unit
  | ⟨scope, world⟩ => .ok () ⟨f scope, world⟩

/-- The heap. -/
def heap : Eval σ Heap := fun m => .ok m.world.heap m

/-- Changes the heap. -/
def modifyHeap (f : Heap → Heap) : Eval σ Unit
  | ⟨scope, ⟨heap, host, log⟩⟩ => .ok () ⟨scope, ⟨f heap, host, log⟩⟩

/-- Adds an event to the log. -/
def note (e : Event) : Eval σ Unit
  | ⟨scope, ⟨heap, host, log⟩⟩ => .ok () ⟨scope, ⟨heap, host, log.add e⟩⟩

/-- Creates an array that takes its element type from its first element. -/
def newArray (items : List Value) : Eval σ Value
  | ⟨scope, ⟨heap, host, log⟩⟩ =>
    let (a, heap) := heap.ofElements items.toArray
    .ok (.array a) ⟨scope, ⟨heap, host, log⟩⟩

/-- Asks the host.  A fault belongs to the site of the call. -/
def ask (host : Host σ) (name : String) (args : List Value) (site : Site) : Eval σ Reply
  | ⟨scope, world⟩ =>
    match host.call name args site world with
    | .ok reply world => .ok reply ⟨scope, world⟩
    | .error fault world => .error (.fault ⟨fault, site⟩) ⟨scope, world⟩

/-- **Running in a frame.**  Runs `body` in `frame` on top of the scope without
its `skipped` innermost frames, then closes the frame and puts those back,
whether `body` succeeds or not. -/
def inFrame (skipped : Nat) (frame : Frame) (body : Eval σ α) : Eval σ α
  | ⟨scope, world⟩ =>
    match body ⟨frame :: scope.drop skipped, world⟩ with
    | .ok a m => .ok a ⟨scope.take skipped ++ m.scope.drop 1, m.world⟩
    | .error e m => .error e ⟨scope.take skipped ++ m.scope.drop 1, m.world⟩

/-- **Running in a child frame**, which is logged. -/
def inChild (frame : Frame) (body : Eval σ α) : Eval σ α := do
  note (.enteringScope ((← scope).depth + 1))
  inFrame 0 frame body

end Eval

end Scriptlet
