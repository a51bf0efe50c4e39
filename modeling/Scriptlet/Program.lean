import Scriptlet.Error.Basic
import Scriptlet.Eval.Run
import Scriptlet.Host.Standard
import Scriptlet.Parser.Stmt
import Scriptlet.Token.Scan

/-!
# Running source text

Source text is scanned, parsed and executed, each phase only if the one before it
succeeded.

## Main definitions

* `Halt` — why a program has no result
* `Program.execute` — runs a source text on a machine, in its innermost frame
* `Program.run` — runs a source text on a new machine

## Design decisions

* The machine is given back in every case, so that output, bindings and log up to
  an error are there to be looked at, and further texts can be executed on it.
-/

namespace Scriptlet

/-- **Halt.**  Why a program has no result. -/
inductive Halt where
  /-- An error. -/
  | error (e : Error)
  /-- The fuel is used up. -/
  | outOfFuel
deriving DecidableEq, Inhabited

/-- An early end of an evaluation as a halt of the program. -/
def Halt.ofStop : Stop → Halt
  | .fault e => .error (.runtime e)
  | .outOfFuel => .outOfFuel

/-- Replaces the log of a machine. -/
def Machine.setLog {σ : Type} (log : Log) : Machine σ → Machine σ
  | ⟨scope, ⟨heap, host, _⟩⟩ => ⟨scope, ⟨heap, host, log⟩⟩

namespace Program

variable {σ : Type}

/-- Fuel that no run uses up in practice. -/
def ampleFuel : Nat := Nat.pow 2 62

/-- The program of a source text; the log of the machine tells of scanning and
parsing. -/
def load (source file : String) : EStateM Halt (Machine σ) Block := fun m =>
  match tokenize source file with
  | .error e => .error (.error (.lex e)) m
  | .ok tokens =>
    match Parser.start Parser.program tokens (m.world.log.add (.tokenized file tokens.length)) with
    | .error e c => .error (.error (.parse e)) (m.setLog c.log)
    | .ok program c =>
      .ok program (m.setLog (c.log.add (.parsed file program.statements.length)))

/-- An evaluation as a step of a program. -/
def ofEval {α : Type} (x : Eval σ α) : EStateM Halt (Machine σ) α := fun m =>
  match x m with
  | .ok a m => .ok a m
  | .error stop m => .error (.ofStop stop) m

/-- **Execution** of a source text in the innermost frame of a machine. -/
def execute (host : Host σ) (config : Config) (fuel : Nat) (source file : String) :
    EStateM Halt (Machine σ) (Option Value) := do
  let program ← load source file
  ofEval (Eval.block host config fuel program)

/-- **Run** of a source text on a new machine. -/
def run (host : Host σ) (config : Config) (fuel : Nat) (source file : String) (state : σ)
    (log : Log) : EStateM.Result Halt (Machine σ) (Option Value) :=
  execute host config fuel source file (.start state log)

end Program

end Scriptlet
