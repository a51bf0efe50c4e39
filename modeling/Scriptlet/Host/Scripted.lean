import Scriptlet.Host.Basic

/-!
# Scripted hosts

A host that answers calls from a table and keeps a record of them, for embedding
scripts and for observing what they ask for.

## Main definitions

* `Behaviour` — what a function of the table does
* `Recorded` — a call that reached the host
* `Scripted.host` — the host
-/

namespace Scriptlet

/-- **Behaviour** of a function. -/
inductive Behaviour where
  /-- Does nothing and has no result. -/
  | finish
  /-- Gives back one of its arguments, or has no result if there is none. -/
  | echo (n : Nat)
  /-- Fails with this explanation. -/
  | fail (reason : String)
  /-- Gives a value, with new arrays at every call. -/
  | give (form : Form)
deriving Inhabited

/-- **Recorded call**, with the arguments as they were at the call. -/
structure Recorded where
  /-- The called name. -/
  name : String
  /-- The arguments. -/
  arguments : List Form
  /-- The site of the call. -/
  site : Site

/-- **State** of a scripted host. -/
structure Script where
  /-- What the functions do. -/
  table : Bindings Behaviour
  /-- The calls so far, oldest first. -/
  calls : Array Recorded

namespace Scripted

/-- Writes down a call. -/
def record (name : String) (args : List Value) (site : Site) :
    EStateM Fault (World Script) (Option Behaviour)
  | ⟨heap, ⟨table, calls⟩, log⟩ =>
    let call := ⟨name, args.map heap.snapshot, site⟩
    .ok (table.find? name) ⟨heap, ⟨table, calls.push call⟩, log⟩

/-- Creates a value. -/
def give (form : Form) : EStateM Fault (World Script) Value
  | ⟨heap, host, log⟩ =>
    let (v, heap) := heap.build form
    .ok v ⟨heap, host, log⟩

/-- Answers a call from the table. -/
def call (name : String) (args : List Value) (site : Site) :
    EStateM Fault (World Script) Reply := do
  match ← record name args site with
  | none => return .unrecognized
  | some .finish => return .finished
  | some (.echo n) => return .ofResult args[n]?
  | some (.fail reason) => throw (.reported .invalidArgument reason)
  | some (.give form) => return .returned (← give form)

/-- **Scripted host.** -/
def host : Host Script where
  call := call

end Scripted

end Scriptlet
