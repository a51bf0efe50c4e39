import Scriptlet.Number.Layout
import Scriptlet.Site
import Scriptlet.Tree.Operator

/-!
# Log events

A run can keep a log of what it does.  The log is part of the state of the parser
and of the evaluator, so the events that came before an error are kept.

## Main definitions

* `Event` — what is logged
* `Event.level`, `Event.message`, `Event.fields` — how an event is shown
* `Log` — the events so far, if they are recorded at all
-/

namespace Scriptlet

/-- **Log event.** -/
inductive Event where
  /-- The source was cut into tokens. -/
  | tokenized (file : String) (tokens : Nat)
  /-- The tokens were parsed. -/
  | parsed (file : String) (statements : Nat)
  /-- A statement was parsed. -/
  | parsedStatement (kind : String) (site : Site)
  /-- An infix operator got its operands. -/
  | folding (op : BinaryOp) (site : Site)
  /-- The evaluation of a node begins. -/
  | evaluating (kind : String) (site : Site)
  /-- A variable is bound in the frame of the given depth. -/
  | declaring (name : String) (depth : Nat)
  /-- A frame of the given depth is opened. -/
  | enteringScope (depth : Nat)
  /-- A function of the script is called from a frame of the given depth. -/
  | calling (name : String) (depth : Nat)
  /-- The header of a counted loop was evaluated. -/
  | loopConfigured (start stop step : Number)
  /-- A builtin is called. -/
  | nativeCall (name : String) (arguments : Nat)
  /-- A call to a function that nobody knows is passed over. -/
  | ignoringUnknown (name : String) (site : Site)

/-- **Level** of an event. -/
inductive Level where
  /-- Every step. -/
  | trace
  /-- What a run goes through. -/
  | debug
  /-- What is likely a mistake. -/
  | warn
deriving DecidableEq, Inhabited

/-- The name of a level. -/
def Level.name : Level → String
  | .trace => "TRACE"
  | .debug => "DEBUG"
  | .warn => "WARN"

/-- **Field** of an event. -/
inductive Field where
  /-- A count. -/
  | count (n : Nat)
  /-- A text. -/
  | text (s : String)
deriving DecidableEq, Inhabited

namespace Event

/-- The level of an event. -/
def level : Event → Level
  | .folding .. | .evaluating .. | .declaring .. => .trace
  | .ignoringUnknown .. => .warn
  | _ => .debug

/-- The message of an event. -/
def message : Event → String
  | .tokenized .. => "tokenized"
  | .parsed .. => "parsed"
  | .parsedStatement .. => "parsed statement"
  | .folding .. => "folding binary operator"
  | .evaluating .. => "evaluating"
  | .declaring .. => "declare"
  | .enteringScope .. => "entering scope"
  | .calling .. => "calling function"
  | .loopConfigured .. => "loop configured"
  | .nativeCall .. => "native call"
  | .ignoringUnknown .. => "ignoring call to unknown function"

/-- The named fields of an event. -/
def fields : Event → List (String × Field)
  | .tokenized file tokens => [("file", .text file), ("tokens", .count tokens)]
  | .parsed file statements => [("file", .text file), ("statements", .count statements)]
  | .parsedStatement kind site => [("kind", .text kind), ("site", .text site.text)]
  | .folding op site => [("op", .text op.text), ("site", .text site.text)]
  | .evaluating kind site => [("kind", .text kind), ("site", .text site.text)]
  | .declaring name depth => [("name", .text name), ("depth", .count depth)]
  | .enteringScope depth => [("depth", .count depth)]
  | .calling name depth => [("name", .text name), ("depth", .count depth)]
  | .loopConfigured start stop step =>
    [("start", .text (Number.text start)), ("end", .text (Number.text stop)),
      ("step", .text (Number.text step))]
  | .nativeCall name arguments => [("name", .text name), ("arguments", .count arguments)]
  | .ignoringUnknown name site => [("name", .text name), ("site", .text site.text)]

end Event

/-- **Log.**  The events so far, oldest first, if they are recorded. -/
structure Log where
  /-- Whether events are recorded. -/
  recording : Bool
  /-- The recorded events. -/
  events : Array Event

namespace Log

/-- A log that records nothing. -/
def silent : Log := ⟨false, .empty⟩

/-- A log that records, without events so far. -/
def recorder : Log := ⟨true, .empty⟩

/-- Records an event. -/
def add (log : Log) (e : Event) : Log :=
  if log.recording then { log with events := log.events.push e } else log

/-- A recording log keeps every event. -/
theorem add_of_recording {log : Log} (h : log.recording = true) (e : Event) :
    (log.add e).events = log.events.push e := by
  rw [add, if_pos h]

@[simp] theorem silent_add (e : Event) : silent.add e = silent := rfl

end Log

end Scriptlet
