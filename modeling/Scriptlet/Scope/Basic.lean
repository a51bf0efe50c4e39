import Scriptlet.Scope.Bindings
import Scriptlet.Tree.Basic
import Scriptlet.Value.Basic

/-!
# Scopes

A scope is a chain of frames.  Every block, branch, loop iteration and call opens
a frame and closes it at its end; names are looked up from the innermost frame
outward.

## Main definitions

* `Frame` — the variables and functions of one construct
* `Scope` — the chain of frames, innermost first
* `Scope.find?`, `Scope.declare`, `Scope.assign?` — variables
* `Scope.function?`, `Scope.define` — functions

## Main statements

* `Scope.find?_declare_cons` — the newest declaration is found first
* `Scope.isSome_assign?` — exactly the bound variables can be assigned

## Design decisions

* Variables and functions have separate tables, so a function and a variable may
  have one name.
* A function is found together with the number of frames inside the one that
  defines it.  A call runs on the chain without those frames, which is what makes
  scoping lexical.
* A chain is never empty in use; on an empty one the operations do nothing.
-/

namespace Scriptlet

/-- **Frame.**  What one construct has bound. -/
structure Frame where
  /-- The variables. -/
  vars : Bindings Value
  /-- The functions. -/
  functions : Bindings Function

namespace Frame

/-- A frame without bindings. -/
def empty : Frame := ⟨[], []⟩

/-- A frame with the given variables. -/
def ofVars (vars : Bindings Value) : Frame := ⟨vars, []⟩

/-- Binds a variable. -/
def declare (f : Frame) (name : String) (v : Value) : Frame :=
  { f with vars := f.vars.insert name v }

/-- Binds a function to its name. -/
def define (f : Frame) (function : Function) : Frame :=
  { f with functions := f.functions.insert function.name function }

end Frame

/-- **Scope.**  A chain of frames, innermost first. -/
abbrev Scope := List Frame

namespace Scope

/-- The scope of a program: one frame without bindings. -/
def global : Scope := [.empty]

/-- How many frames enclose the innermost one. -/
def depth (scope : Scope) : Nat := scope.length - 1

/-- The value of the nearest variable of that name. -/
def find? (name : String) : Scope → Option Value
  | [] => none
  | f :: outer => f.vars.find? name <|> find? name outer

/-- Binds a variable in the innermost frame. -/
def declare (name : String) (v : Value) : Scope → Scope
  | [] => []
  | f :: outer => f.declare name v :: outer

/-- Replaces the value of the nearest variable of that name. -/
def assign? (name : String) (v : Value) : Scope → Option Scope
  | [] => none
  | f :: outer =>
    if (f.vars.find? name).isSome then some (f.declare name v :: outer)
    else (assign? name v outer).map (f :: ·)

/-- Binds a function in the innermost frame. -/
def define (function : Function) : Scope → Scope
  | [] => []
  | f :: outer => f.define function :: outer

/-- The nearest function of that name, with the number of frames inside the one
that defines it. -/
def function? (name : String) : Scope → Option (Nat × Function)
  | [] => none
  | f :: outer =>
    match f.functions.find? name with
    | some function => some (0, function)
    | none => (function? name outer).map fun (n, function) => (n + 1, function)

@[simp] theorem length_declare (name : String) (v : Value) (scope : Scope) :
    (declare name v scope).length = scope.length := by
  cases scope <;> rfl

@[simp] theorem length_define (function : Function) (scope : Scope) :
    (define function scope).length = scope.length := by
  cases scope <;> rfl

/-- **Lookup after a declaration.** -/
theorem find?_declare_cons (name other : String) (v : Value) (f : Frame) (outer : Scope) :
    find? other (declare name v (f :: outer)) =
      if name = other then some v else find? other (f :: outer) := by
  simp only [declare, find?, Frame.declare, Bindings.find?_insert]
  by_cases same : name = other
  · simp [same]
  · simp [same]

/-- An assignment succeeds exactly if the variable is bound. -/
theorem isSome_assign? (name : String) (v : Value) (scope : Scope) :
    (assign? name v scope).isSome = (find? name scope).isSome := by
  induction scope with
  | nil => rfl
  | cons f outer ih =>
    cases bound : f.vars.find? name with
    | none => simp [assign?, find?, bound, ih]
    | some w => simp [assign?, find?, bound]

end Scope

end Scriptlet
