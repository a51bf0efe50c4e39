import Scriptlet.Program

/-!
# Sessions

A session keeps a machine over several steps: source texts are executed in its
current frame, and bindings can be made and looked up from outside.

## Main definitions

* `Session` — the machine of a session, with the standard host
* `Session.push`, `Session.pop` — opening and closing frames
* `Session.declare`, `Session.share`, `Session.assign`, `Session.find?` — variables
* `Session.execute`, `Session.declareUntyped` — source texts

## Design decisions

* An error ends only the step that it happens in, and undoes nothing.
* The global frame cannot be closed.
-/

namespace Scriptlet

/-- **Session.** -/
abbrev Session := Machine Sink

namespace Session

/-- A new session, whose output is limited as given. -/
def start (limit : Option Nat) : Session :=
  Machine.start (.ofLimit limit) .silent

/-- The depth of the current frame. -/
def depth (s : Session) : Nat := s.scope.depth

/-- Opens a frame. -/
def push (s : Session) : Session :=
  { s with scope := .empty :: s.scope }

/-- Closes the current frame, unless it is the global one. -/
def pop (s : Session) : Session :=
  if s.scope.length ≤ 1 then s else { s with scope := s.scope.drop 1 }

/-- Creates a value. -/
def build (form : Form) : Session → Value × Session
  | ⟨scope, ⟨heap, host, log⟩⟩ =>
    let (v, heap) := heap.build form
    (v, ⟨scope, ⟨heap, host, log⟩⟩)

/-- Binds a variable in the current frame, without any check. -/
def declare (name : String) (form : Form) (s : Session) : Session :=
  let (v, s) := s.build form
  { s with scope := s.scope.declare name v }

/-- Binds a variable in the current frame to the value of another one; void if
there is no such variable. -/
def share (name other : String) (s : Session) : Session :=
  { s with scope := s.scope.declare name ((s.scope.find? other).getD .void) }

/-- Replaces the value of the nearest variable of that name, without any check.
Tells whether there is one. -/
def assign (name : String) (form : Form) (s : Session) : Bool × Session :=
  let (v, s) := s.build form
  match s.scope.assign? name v with
  | some scope => (true, { s with scope })
  | none => (false, s)

/-- The value of a variable. -/
def find? (name : String) (s : Session) : Option Value :=
  s.scope.find? name

/-- The nearest function of that name, with the depth of the frame that defines
it. -/
def function? (name : String) (s : Session) : Option (Nat × Function) :=
  (s.scope.function? name).map fun (skipped, f) => (s.depth - skipped, f)

/-- **Execution** of a source text in the current frame. -/
def execute (config : Config) (source file : String) :
    EStateM Halt Session (Option Value) :=
  Program.execute Standard.host config Program.ampleFuel source file

/-- **Declaration without a type.**  Binds a variable to the value of an
expression; nothing is bound if the source is empty. -/
def declareUntyped (config : Config) (name source file : String) :
    EStateM Halt Session Unit := do
  let program ← Program.load ("return " ++ source ++ ";") file
  match program.statements.head? with
  | some (.ret (some value) _) =>
    Program.ofEval
      (Eval.declareUntyped (Eval.expr Standard.host config Program.ampleFuel) name value)
  | _ => return ()

/-- What was printed after the first `used` bytes. -/
def outputSince (used : Nat) (s : Session) : String :=
  Text.decodeCut (s.world.host.bytes.drop used)

end Session

end Scriptlet
