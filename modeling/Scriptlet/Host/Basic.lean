import Scriptlet.Error.Runtime
import Scriptlet.Event
import Scriptlet.Scope.Basic
import Scriptlet.Value.Heap

/-!
# Hosts

Calls to functions that the script does not define go to the host.  A host has a
state of its own, and it can read and change the heap.

## Main definitions

* `World` — what a host works on: the heap, its own state and the log
* `Reply` — how a host answers a call
* `Host` — what answers the calls

## Design decisions

* A host does not see the scope of the script.
* A fault leaves the world as it is at that moment; nothing is undone.
-/

namespace Scriptlet

/-- **World.**  The part of the state that hosts work on. -/
structure World (σ : Type) where
  /-- The arrays. -/
  heap : Heap
  /-- The state of the host. -/
  host : σ
  /-- The log. -/
  log : Log

/-- **Reply** of a host. -/
inductive Reply where
  /-- The call has a result. -/
  | returned (v : Value)
  /-- The call is done and has no result. -/
  | finished
  /-- The host does not know a function of that name. -/
  | unrecognized
deriving DecidableEq, Inhabited

/-- The reply to a call that may have a result. -/
def Reply.ofResult : Option Value → Reply
  | some v => .returned v
  | none => .finished

/-- **Host** with states of type `σ`. -/
structure Host (σ : Type) where
  /-- Answers a call of a function by name. -/
  call : String → List Value → Site → EStateM Fault (World σ) Reply

end Scriptlet
