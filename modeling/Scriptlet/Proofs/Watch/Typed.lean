import Mathlib.Data.List.Forall2
import Scriptlet.Proofs.Watch.Erase
import Scriptlet.Proofs.Watch.Path

/-!
# Variables keep their declared types

At every moment of every run, the value of a variable conforms to what the variable
was declared as last, and no variable is bound to an array of unknown element type.

## Main definitions

* `Moment.Typed` — this holds in all live frames

## Main statements

* `Change.typed` — every change keeps it
* `Machine.typed_executeWatched` — it holds at all moments of sequences of programs

## Design decisions

* Four rules meet here: the check of declarations and arguments, that of
  reassignments, adoption, and the element check of the builtins.  The heap grows
  under all of them, and a value whose element type is known keeps its type in a heap
  that grows; so only the variable that a change binds has to be looked at.
-/

namespace Scriptlet

/-- **Typed moment.**  All frames are typed: those of the chain and those that calls
have set aside. -/
structure Moment.Typed (p : Moment) : Prop where
  /-- Those of the chain. -/
  scope : List.Forall₂ (Frame.Typed p.heap) p.types p.scope
  /-- Those that are set aside. -/
  aside : ∀ s ∈ p.aside, List.Forall₂ (Frame.Typed p.heap) s.2 s.1

variable {heap heap' : Heap}

/-! ## Reassignment -/

/-- **A value of the same shape**, after adoption, has the type of the value that it
replaces. -/
theorem Heap.typeOf_adoptHeld {held v : Value} (hv : heap.Holds v)
    (known : heap.typeOf held ≠ .arrayOf .unknown) (same : heap.sameShape held v = true) :
    (Eval.adoptHeld held v heap).typeOf v = heap.typeOf held := by
  cases held with
  | number x | text s | boolean b | void =>
    simp only [sameShape, typeOf, TypeSpec.sameShape, TypeSpec.scalar, Bool.false_and,
      Bool.false_eq_true, if_false, beq_iff_eq] at same
    simp only [Eval.adoptHeld, typeOf, TypeSpec.scalar]
    exact same.symm
  | array a =>
    have element : heap.element a ≠ .unknown := fun unknown => known (by rw [typeOf, unknown])
    cases v with
    | number x | text s | boolean b | void =>
      simp [sameShape, typeOf, TypeSpec.sameShape, TypeSpec.scalar, TypeSpec.arrayOf] at same
    | array b =>
      simp only [sameShape, typeOf, TypeSpec.sameShape, TypeSpec.arrayOf, Bool.and_self, if_true,
        Bool.or_eq_true, beq_iff_eq, element, or_false] at same
      -- Either `v` adopts the known element type, or its own is that one already.
      by_cases unknown : heap.element b = .unknown
      · have adopted : Eval.adoptHeld (.array a) (.array b) heap =
            heap.setElement b (heap.element a) := if_pos unknown
        rw [adopted, typeOf, typeOf, heap.element_setElement_self _ (hv b rfl)]
      · have adopted : Eval.adoptHeld (.array a) (.array b) heap = heap := if_neg unknown
        rw [adopted, typeOf, typeOf, same.resolve_right unknown]

/-- A frame in which a variable gets another value. -/
theorem Frame.Typed.assign {types : Bindings TypeSpec} {f : Frame} {name : String}
    {spec : TypeSpec} {v : Value} (typed : f.Typed heap types)
    (declared : types.find? name = some spec) (conforms : heap.conforms v spec = true)
    (known : heap.typeOf v ≠ .arrayOf .unknown) : (f.declare name v).Typed heap types := by
  intro other w found
  rw [Frame.declare, Bindings.find?_insert] at found
  split at found
  · next same =>
    subst same
    cases found
    exact ⟨spec, declared, conforms, known⟩
  · exact typed other w found

/-! ## Chains of frames -/

theorem typed_grows {types : List (Bindings TypeSpec)} {scope : Scope}
    (typed : List.Forall₂ (Frame.Typed heap) types scope) (valid : ∀ f ∈ scope, f.Valid heap)
    (grows : heap.Grows heap') : List.Forall₂ (Frame.Typed heap') types scope := by
  induction typed with
  | nil => exact .nil
  | cons first _ ih =>
    exact .cons (first.grows (valid _ (.head _)) grows) (ih fun f mem => valid f (.tail _ mem))

theorem typed_declare {types : List (Bindings TypeSpec)} {scope : Scope} {name : String}
    {v : Value} {spec : TypeSpec} (typed : List.Forall₂ (Frame.Typed heap) types scope)
    (conforms : heap.conforms v spec = true) (known : heap.typeOf v ≠ .arrayOf .unknown) :
    List.Forall₂ (Frame.Typed heap) (types.modifyHead (·.insert name spec))
      (scope.declare name v) := by
  cases typed with
  | nil => exact .nil
  | cons first others => exact .cons (first.declare conforms known) others

theorem typed_define {types : List (Bindings TypeSpec)} {scope : Scope} (function : Function)
    (typed : List.Forall₂ (Frame.Typed heap) types scope) :
    List.Forall₂ (Frame.Typed heap) types (scope.define function) := by
  cases typed with
  | nil => exact .nil
  | cons first others => exact .cons first others

/-- The frame that holds the variable is found on the way outward; the others stay. -/
theorem typed_assign {types : List (Bindings TypeSpec)} {scope scope' : Scope} {name : String}
    {held v : Value} (typed : List.Forall₂ (Frame.Typed heap) types scope)
    (valid : ∀ f ∈ scope, f.Valid heap) (hv : heap.Holds v)
    (found : scope.find? name = some held) (same : heap.sameShape held v = true)
    (assigned : scope.assign? name v = some scope') :
    List.Forall₂ (Frame.Typed (Eval.adoptHeld held v heap)) types scope' := by
  have grows := heap.grows_adoptHeld held v
  -- On the way outward, as the assignment looks for the frame.
  induction typed generalizing scope' with
  | nil => cases assigned
  | @cons types f ts outer first others ih =>
    rw [Scope.assign?] at assigned
    rw [Scope.find?] at found
    have kept := first.grows (valid f (.head _)) grows
    cases here : f.vars.find? name with
    | some w =>
      rw [here] at assigned found
      cases assigned
      cases found
      obtain ⟨spec, declared, conforms, known⟩ := first name held here
      have type := Heap.typeOf_adoptHeld hv known same
      have conforms' : (Eval.adoptHeld held v heap).conforms v spec = true := by
        rw [Heap.conforms, type]
        exact conforms
      have known' : (Eval.adoptHeld held v heap).typeOf v ≠ .arrayOf .unknown := by
        rw [type]
        exact known
      exact .cons (kept.assign declared conforms' known')
        (typed_grows others (fun g mem => valid g (.tail _ mem)) grows)
    | none =>
      rw [here] at assigned found
      obtain ⟨rest, hrest, rfl⟩ := Option.map_eq_some_iff.mp assigned
      exact .cons kept (ih (fun g mem => valid g (.tail _ mem)) found hrest)

/-! ## All moments -/

/-- **Every change keeps moments typed.** -/
theorem Change.typed {p q : Moment} (valid : p.Valid) (typed : p.Typed) (h : Change p q) :
    q.Typed := by
  -- All that was bound before stays typed, since the heap grows.
  have chain := typed_grows typed.scope valid.scope h.grows
  have aside : ∀ s ∈ p.aside, List.Forall₂ (Frame.Typed q.heap) s.2 s.1 :=
    fun s mem => typed_grows (typed.aside s mem) (valid.aside s mem) h.grows
  cases h with
  | create | adopt | setItem | addItem => exact ⟨chain, aside⟩
  | declare held conforms =>
    obtain ⟨conforms', known⟩ := Heap.conforms_adopt held conforms
    exact ⟨typed_declare chain conforms' known, aside⟩
  | reassign held found same assigned =>
    exact ⟨typed_assign typed.scope valid.scope held found same assigned, aside⟩
  | define => exact ⟨typed_define _ chain, aside⟩
  | enter _ fits =>
    refine ⟨.cons fits (List.forall₂_drop _ chain), ?_⟩
    rintro s (_ | ⟨_, mem⟩)
    · exact List.forall₂_take _ chain
    · exact aside s mem
  | @leave scope types rest same =>
    rw [same] at aside
    exact ⟨List.rel_append (aside _ (.head _)) (List.forall₂_drop 1 chain),
      fun s mem => aside s (.tail _ mem)⟩

theorem Moment.Reaches.typed {p q : Moment} (h : p.Reaches q) (valid : p.Valid) (typed : p.Typed) :
    q.Typed := by
  induction h with
  | refl => exact typed
  | tail reached change ih => exact change.typed (Moment.Reaches.valid reached valid) ih

/-- A machine with one empty frame and no arrays, under observation. -/
def Machine.startWatched (sink : Sink) (log : Log) : Machine (Watch Sink) :=
  .start (.start sink) log

theorem Machine.valid_startWatched (sink : Sink) (log : Log) :
    (startWatched sink log).now.Valid := by
  refine ⟨?_, ?_, ?_⟩
  · rintro f (_ | ⟨_, ⟨⟩⟩)
    exact Frame.valid_empty _
  · rintro s ⟨⟩
  · intro a v mem
    have none : (startWatched sink log).now.heap.cell a = ⟨.empty, .unknown⟩ := rfl
    rw [none] at mem
    exact absurd mem (Array.not_mem_empty v)

theorem Machine.typed_startWatched (sink : Sink) (log : Log) :
    (startWatched sink log).now.Typed := by
  refine ⟨.cons (Watch.typed_empty _) .nil, ?_⟩
  rintro s ⟨⟩

/-- **Variables keep their declared types.**  Any programs are executed one after the
other in one scope, each with its own settings and fuel, and each may fail.  Then at
every moment, each variable of each live frame has a value that conforms to what the
variable was declared as last, and that is no array of unknown element type.  The
watch that tells the moments changes nothing of the run. -/
theorem Machine.typed_executeWatched (sink : Sink) (log : Log) (runs : List Run) :
    ((startWatched sink log).executeWatched Standard.host runs).forget =
        (Machine.start sink log).execute Standard.host runs ∧
      (∀ p ∈ ((startWatched sink log).executeWatched Standard.host runs).past, p.Typed) ∧
      ((startWatched sink log).executeWatched Standard.host runs).now.Typed := by
  have onward := onward_executeWatched (startWatched sink log) (valid_startWatched sink log) runs
  have reached : ∀ {p}, (startWatched sink log).now.Reaches p → p.Typed :=
    fun h => h.typed (valid_startWatched sink log) (typed_startWatched sink log)
  refine ⟨forget_executeWatched Standard.host _ runs, ?_, reached onward.reaches⟩
  intro p mem
  obtain ⟨new, hpast, between, -⟩ := onward.past
  rw [hpast] at mem
  rcases List.mem_append.mp mem with kept | ⟨⟨⟩⟩
  exact reached (between p kept).1

end Scriptlet
