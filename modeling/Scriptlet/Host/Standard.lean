import Scriptlet.Host.Basic
import Scriptlet.Host.Sink
import Scriptlet.Host.Template
import Scriptlet.Value.Operation

/-!
# The standard host

Five builtins: one prints, four work on arrays.

## Main definitions

* `Builtin` — the builtins
* `Builtin.arity` — how many arguments each takes
* `Standard.run` — what each does
* `Standard.host` — the host that offers them

## Design decisions

* Every check of a builtin comes before its first change, so a failing call
  changes no array.
* `Standard.run` answers for any number of arguments; the host checks the number
  first and reports it under the least number that would do.
-/

namespace Scriptlet

/-- **Builtin.** -/
inductive Builtin where
  /-- Prints a value, or a template filled with values, and a line end. -/
  | print
  /-- Gives the element of an array at a place. -/
  | arrayGet
  /-- Replaces the element of an array at a place. -/
  | arraySet
  /-- Gives the number of elements of an array. -/
  | arrayLen
  /-- Appends an element to an array. -/
  | arrayAdd
deriving DecidableEq, Inhabited

/-- **Arity.**  How many arguments a builtin takes. -/
inductive Arity where
  /-- Exactly that many. -/
  | exactly (n : Nat)
  /-- That many or more. -/
  | atLeast (n : Nat)
deriving DecidableEq, Inhabited

namespace Arity

/-- Whether a number of arguments is right. -/
def admits : Arity → Nat → Bool
  | .exactly m, n => n == m
  | .atLeast m, n => m ≤ n

/-- The least number of arguments that is right. -/
def least : Arity → Nat
  | .exactly m | .atLeast m => m

end Arity

namespace Builtin

/-- The name of a builtin in scripts. -/
def name : Builtin → String
  | .print => "print"
  | .arrayGet => "array_get"
  | .arraySet => "array_set"
  | .arrayLen => "array_len"
  | .arrayAdd => "array_add"

/-- The arity of a builtin. -/
def arity : Builtin → Arity
  | .print => .atLeast 1
  | .arrayGet => .exactly 2
  | .arraySet => .exactly 3
  | .arrayLen => .exactly 1
  | .arrayAdd => .exactly 2

/-- All builtins. -/
def all : List Builtin := [.print, .arrayGet, .arraySet, .arrayLen, .arrayAdd]

/-- The builtin of that name. -/
def ofName? (name : String) : Option Builtin :=
  all.find? fun b => b.name == name

end Builtin

namespace Standard

/-- What a builtin does to the world. -/
abbrev Action := EStateM Fault (World Sink)

/-- Passes on the result of a check. -/
def check {α : Type} (r : Except Fault α) : Action α := fun w =>
  match r with
  | .ok a => .ok a w
  | .error e => .error e w

/-- The heap. -/
def heap : Action Heap := fun w => .ok w.heap w

/-- Changes the heap. -/
def modifyHeap (f : Heap → Heap) : Action Unit
  | ⟨heap, host, log⟩ => .ok () ⟨f heap, host, log⟩

/-- Adds an event to the log. -/
def note (e : Event) : Action Unit
  | ⟨heap, host, log⟩ => .ok () ⟨heap, host, log.add e⟩

/-- Writes a text to the sink. -/
def emit (s : String) : Action Unit
  | ⟨heap, sink, log⟩ =>
    match sink.write (Text.bytes s) with
    | (true, sink) => .ok () ⟨heap, sink, log⟩
    | (false, sink) => .error (.output "sink is full") ⟨heap, sink, log⟩

/-- **Printed text.**  One value is printed as it is; of several the first is a
template for the others. -/
def printed (heap : Heap) : List Value → Except Fault String
  | [] => .ok ""
  | [v] => .ok (heap.text v)
  | .text template :: values => Template.fill template (values.map heap.text)
  | v :: _ => .error (.templateType (heap.typeOf v))

/-- Prints a line. -/
def print (args : List Value) : Action (Option Value) := do
  let s ← check (printed (← heap) args)
  emit (s ++ "\n")
  return none

/-- **Element check.**  An array takes elements of its element type, and any
element if that is not known yet.  Arrays are no elements. -/
def checkElement (heap : Heap) (a : Handle) (v : Value) : Except Fault Unit :=
  if v.tag = .array then .error (.nestedArray (heap.typeOf v))
  else if heap.element a = .unknown ∨ heap.element a = v.tag then .ok ()
  else .error (.elementType (heap.typeOf v) (heap.element a))

/-- The element of an array at a place. -/
def arrayGet (heap : Heap) : List Value → Except Fault Value
  | [array, index] => do
    let a ← Operation.array heap array
    let x ← Operation.number heap index
    let i ← Operation.position x (heap.length a)
    (heap.get? a i).elim (.error (.index x (heap.length a))) .ok
  | args => .error (.arity "array_get" 2 args.length)

/-- The array and the place that a replacement is for. -/
def arrayTarget (heap : Heap) : List Value → Except Fault (Handle × Nat × Value)
  | [array, index, v] => do
    let a ← Operation.array heap array
    let x ← Operation.number heap index
    let i ← Operation.position x (heap.length a)
    checkElement heap a v
    return (a, i, v)
  | args => .error (.arity "array_set" 3 args.length)

/-- Replaces an element; an array of unknown element type takes that of the
element. -/
def arraySet (args : List Value) : Action (Option Value) := do
  let (a, i, v) ← check (arrayTarget (← heap) args)
  modifyHeap fun heap => (heap.setElement a v.tag).set a i v
  return none

/-- The number of elements of an array. -/
def arrayLen (heap : Heap) : List Value → Except Fault Value
  | [array] => do
    let a ← Operation.array heap array
    return .number (← Operation.ofCount (heap.length a))
  | args => .error (.arity "array_len" 1 args.length)

/-- The array that an element is to be appended to. -/
def arrayAddition (heap : Heap) : List Value → Except Fault (Handle × Value)
  | [array, v] => do
    let a ← Operation.array heap array
    checkElement heap a v
    return (a, v)
  | args => .error (.arity "array_add" 2 args.length)

/-- Appends an element; an array of unknown element type takes that of the
element. -/
def arrayAdd (args : List Value) : Action (Option Value) := do
  let (a, v) ← check (arrayAddition (← heap) args)
  modifyHeap fun heap => (heap.setElement a v.tag).push a v
  return none

/-- **What a builtin does**, and its result if it has one. -/
def run (b : Builtin) (args : List Value) : Action (Option Value) :=
  match b with
  | .print => print args
  | .arrayGet => do return some (← check (arrayGet (← heap) args))
  | .arraySet => arraySet args
  | .arrayLen => do return some (← check (arrayLen (← heap) args))
  | .arrayAdd => arrayAdd args

/-- Answers a call of a builtin. -/
def call (name : String) (args : List Value) : Action Reply :=
  match Builtin.ofName? name with
  | none => return .unrecognized
  | some b =>
    if b.arity.admits args.length then do
      note (.nativeCall name args.length)
      return .ofResult (← run b args)
    else throw (.arity name b.arity.least args.length)

/-- **Standard host.** -/
def host : Host Sink where
  call name args _ := call name args

end Standard

end Scriptlet
