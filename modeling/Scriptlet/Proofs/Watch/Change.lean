import Mathlib.Logic.Relation
import Scriptlet.Proofs.Heap.Growth
import Scriptlet.Proofs.Watch.Basic

/-!
# What a script can do to the state

The single changes that a script can make, each with the checks that the evaluator
makes before it.  Whatever is to hold at all moments of all runs is shown for these
changes.

## Main definitions

* `Frame.Typed` — the variables of a frame conform to what they were declared as
* `Moment.Valid` — all array values refer to arrays
* `Change` — one change between two moments
* `Moment.Reaches` — any number of changes

## Main statements

* `Change.grows` — changes make the heap grow
* `Change.valid` — changes keep a moment valid

## Design decisions

* Opening and closing a frame are changes.  The frames that a call sets aside are
  part of a moment, so closing needs no memory of its own.
* A new frame may already hold variables, the parameters of a call or the counter of
  a loop.  That these conform to their types is a check like the others.
-/

namespace Scriptlet

/-- **Typed frame.**  Every variable of the frame was declared, its value conforms to
what it was declared as last, and it is not an array of unknown element type. -/
def Frame.Typed (heap : Heap) (types : Bindings TypeSpec) (f : Frame) : Prop :=
  ∀ name v, f.vars.find? name = some v → ∃ spec, types.find? name = some spec ∧
    heap.conforms v spec = true ∧ heap.typeOf v ≠ .arrayOf .unknown

/-- The variables of the frame are held by the heap. -/
def Frame.Valid (heap : Heap) (f : Frame) : Prop :=
  ∀ name v, f.vars.find? name = some v → heap.Holds v

/-- **Valid moment.**  All array values refer to arrays. -/
structure Moment.Valid (p : Moment) : Prop where
  /-- Those in the frames of the chain. -/
  scope : ∀ f ∈ p.scope, f.Valid p.heap
  /-- Those in the frames that are set aside. -/
  aside : ∀ s ∈ p.aside, ∀ f ∈ s.1, f.Valid p.heap
  /-- Those in arrays. -/
  heap : p.heap.Sound

/-- **Change** of the state by a script. -/
inductive Change : Moment → Moment → Prop where
  /-- An array is created. -/
  | create {p : Moment} {items : List Value} :
      (∀ v ∈ items, p.heap.Holds v) →
      Change p { p with heap := (p.heap.ofElements items.toArray).2 }
  /-- An argument takes over the type of its parameter. -/
  | adopt {p : Moment} {v : Value} {type : DeclaredType} :
      p.heap.Holds v → p.heap.conforms v type.spec = true →
      Change p { p with heap := p.heap.adopt v type.spec }
  /-- A variable is declared. -/
  | declare {p : Moment} {v : Value} {type : DeclaredType} {name : String} :
      p.heap.Holds v → p.heap.conforms v type.spec = true →
      Change p { p with
        heap := p.heap.adopt v type.spec
        scope := p.scope.declare name v
        types := p.types.modifyHead (·.insert name type.spec) }
  /-- A variable gets another value. -/
  | reassign {p : Moment} {held v : Value} {name : String} {scope : Scope} :
      p.heap.Holds v → p.scope.find? name = some held → p.heap.sameShape held v = true →
      p.scope.assign? name v = some scope →
      Change p { p with heap := Eval.adoptHeld held v p.heap, scope }
  /-- A function is defined. -/
  | define {p : Moment} {f : Function} : Change p { p with scope := p.scope.define f }
  /-- An element of an array is replaced. -/
  | setItem {p : Moment} {a : Handle} {i : Nat} {v : Value} :
      p.heap.Holds v → v.tag ≠ .array → i < p.heap.length a →
      (p.heap.element a = .unknown ∨ p.heap.element a = v.tag) →
      Change p { p with heap := (p.heap.setElement a v.tag).set a i v }
  /-- An element is appended to an array. -/
  | addItem {p : Moment} {a : Handle} {v : Value} :
      p.heap.Holds v → v.tag ≠ .array → a.slot < p.heap.size →
      (p.heap.element a = .unknown ∨ p.heap.element a = v.tag) →
      Change p { p with heap := (p.heap.setElement a v.tag).push a v }
  /-- A frame is opened. -/
  | enter {p : Moment} {f : Frame} {types : Bindings TypeSpec} {skipped : Nat} :
      f.Valid p.heap → f.Typed p.heap types →
      Change p { p with
        scope := f :: p.scope.drop skipped
        types := types :: p.types.drop skipped
        aside := (p.scope.take skipped, p.types.take skipped) :: p.aside }
  /-- A frame is closed. -/
  | leave {p : Moment} {scope : Scope} {types : List (Bindings TypeSpec)}
      {aside : List (Scope × List (Bindings TypeSpec))} :
      p.aside = (scope, types) :: aside →
      Change p { p with scope := scope ++ p.scope.drop 1, types := types ++ p.types.drop 1, aside }

/-- **Reaching** a moment from another one by changes. -/
def Moment.Reaches : Moment → Moment → Prop := Relation.ReflTransGen Change

/-! ## Frames in a heap that grows -/

theorem Frame.Valid.grows {heap heap' : Heap} {f : Frame} (valid : f.Valid heap)
    (h : heap.Grows heap') : f.Valid heap' :=
  fun name v found => h.holds (valid name v found)

theorem Frame.Typed.grows {heap heap' : Heap} {types : Bindings TypeSpec} {f : Frame}
    (typed : f.Typed heap types) (valid : f.Valid heap) (h : heap.Grows heap') :
    f.Typed heap' types := by
  intro name v found
  obtain ⟨spec, declared, conforms, known⟩ := typed name v found
  have same := h.typeOf_eq (valid name v found) known
  refine ⟨spec, declared, ?_, ?_⟩
  · rw [Heap.conforms, same]
    exact conforms
  · rw [same]
    exact known

/-- A frame in which one more variable is bound. -/
theorem Frame.Valid.declare {heap : Heap} {f : Frame} {name : String} {v : Value}
    (valid : f.Valid heap) (held : heap.Holds v) : (f.declare name v).Valid heap := by
  intro other w found
  rw [Frame.declare, Bindings.find?_insert] at found
  split at found
  · cases found
    exact held
  · exact valid other w found

/-- A frame in which one more variable was declared. -/
theorem Frame.Typed.declare {heap : Heap} {types : Bindings TypeSpec} {f : Frame} {name : String}
    {spec : TypeSpec} {v : Value} (typed : f.Typed heap types)
    (conforms : heap.conforms v spec = true) (known : heap.typeOf v ≠ .arrayOf .unknown) :
    (f.declare name v).Typed heap (types.insert name spec) := by
  intro other w found
  rw [Frame.declare, Bindings.find?_insert] at found
  rw [Bindings.find?_insert]
  split at found
  · next same =>
    cases found
    exact ⟨spec, by rw [if_pos same], conforms, known⟩
  · next differs =>
    rw [if_neg differs]
    exact typed other w found

/-- **A value that conforms to a declared type** conforms to it after adoption as well,
and then its element type is known. -/
theorem Heap.conforms_adopt {heap : Heap} {v : Value} {type : DeclaredType} (held : heap.Holds v)
    (conforms : heap.conforms v type.spec = true) :
    (heap.adopt v type.spec).conforms v type.spec = true ∧
      (heap.adopt v type.spec).typeOf v ≠ .arrayOf .unknown := by
  obtain ⟨base, array⟩ := type
  have known : base.dataType ≠ .unknown := by cases base <;> simp [BaseType.dataType]
  cases v with
  -- Only arrays adopt anything.
  | number x | text s | boolean b | void =>
    exact ⟨conforms, by simp [Heap.typeOf, TypeSpec.scalar, TypeSpec.arrayOf]⟩
  | array a =>
    by_cases unknown : heap.element a = .unknown
    · have element : (heap.setElement a base.dataType).element a = base.dataType :=
        heap.element_setElement_self _ (held a rfl)
      have adopted : heap.adopt (.array a) (DeclaredType.spec ⟨base, array⟩) =
          heap.setElement a base.dataType := if_pos unknown
      rw [adopted]
      simp only [Heap.conforms, Heap.typeOf, TypeSpec.conformsTo, TypeSpec.arrayOf, unknown,
        DeclaredType.spec, element] at conforms ⊢
      refine ⟨?_, by simpa using known⟩
      split at conforms
      · cases conforms
      · next sensible =>
        rw [if_neg sensible]
        simp
    · have adopted : heap.adopt (.array a) (DeclaredType.spec ⟨base, array⟩) = heap :=
        if_neg unknown
      rw [adopted]
      refine ⟨conforms, fun same => unknown ?_⟩
      simpa [Heap.typeOf, TypeSpec.arrayOf] using same

theorem Frame.valid_empty (heap : Heap) : Frame.empty.Valid heap :=
  fun _ _ found => nomatch found

theorem Scope.valid_declare {heap : Heap} {scope : Scope} {name : String} {v : Value}
    (valid : ∀ f ∈ scope, f.Valid heap) (held : heap.Holds v) :
    ∀ f ∈ scope.declare name v, f.Valid heap := by
  cases scope with
  | nil => exact valid
  | cons f outer =>
    rintro g (_ | ⟨_, mem⟩)
    · exact (valid f (.head _)).declare held
    · exact valid g (.tail _ mem)

theorem Scope.valid_assign {heap : Heap} {scope scope' : Scope} {name : String} {v : Value}
    (valid : ∀ f ∈ scope, f.Valid heap) (held : heap.Holds v)
    (assigned : scope.assign? name v = some scope') : ∀ f ∈ scope', f.Valid heap := by
  induction scope generalizing scope' with
  | nil => cases assigned
  | cons f outer ih =>
    rw [Scope.assign?] at assigned
    split at assigned
    · cases assigned
      rintro g (_ | ⟨_, mem⟩)
      · exact (valid f (.head _)).declare held
      · exact valid g (.tail _ mem)
    · obtain ⟨rest, hrest, rfl⟩ := Option.map_eq_some_iff.mp assigned
      rintro g (_ | ⟨_, mem⟩)
      · exact valid f (.head _)
      · exact ih (fun g mem => valid g (.tail _ mem)) hrest g mem

theorem Scope.valid_define {heap : Heap} {scope : Scope} {function : Function}
    (valid : ∀ f ∈ scope, f.Valid heap) : ∀ f ∈ scope.define function, f.Valid heap := by
  cases scope with
  | nil => exact valid
  | cons f outer =>
    rintro g (_ | ⟨_, mem⟩)
    · exact valid f (.head _)
    · exact valid g (.tail _ mem)

/-! ## Changes -/

theorem Heap.grows_adoptHeld (heap : Heap) (held v : Value) :
    heap.Grows (Eval.adoptHeld held v heap) := by
  cases held with
  | array a => exact .adopt heap v _
  | number x | text s | boolean b | void => exact .refl heap

theorem Heap.Sound.adoptHeld {heap : Heap} (sound : heap.Sound) (held v : Value) :
    (Eval.adoptHeld held v heap).Sound := by
  cases held with
  | array a => exact sound.adopt v _
  | number x | text s | boolean b | void => exact sound

namespace Change

variable {p q : Moment}

/-- **Changes make the heap grow.** -/
theorem grows (h : Change p q) : p.heap.Grows q.heap := by
  cases h with
  | create => exact .alloc _ _ _
  | adopt | declare => exact .adopt _ _ _
  | reassign => exact p.heap.grows_adoptHeld _ _
  | setItem _ _ _ fits => exact (Heap.Grows.setElement fits).trans (.set _ _ _ _)
  | addItem _ _ _ fits => exact (Heap.Grows.setElement fits).trans (.push _ _ _)
  | define | enter | leave => exact .refl _

/-- **Changes keep a moment valid.** -/
theorem valid (valid : p.Valid) (h : Change p q) : q.Valid := by
  -- Old values are held by every heap that grows; each case is about the new ones.
  have chain : ∀ f ∈ p.scope, f.Valid q.heap := fun f mem => (valid.scope f mem).grows h.grows
  have aside : ∀ s ∈ p.aside, ∀ f ∈ s.1, f.Valid q.heap :=
    fun s hs f mem => (valid.aside s hs f mem).grows h.grows
  have growing := h.grows
  cases h with
  | @create items held =>
    refine ⟨chain, aside, valid.heap.alloc ?_ _⟩
    simpa using held
  | adopt held => exact ⟨chain, aside, valid.heap.adopt _ _⟩
  | declare held =>
    exact ⟨Scope.valid_declare chain (growing.holds held), aside, valid.heap.adopt _ _⟩
  | reassign held _ _ assigned =>
    exact ⟨Scope.valid_assign chain (growing.holds held) assigned, aside,
      valid.heap.adoptHeld _ _⟩
  | define => exact ⟨Scope.valid_define chain, aside, valid.heap⟩
  | @setItem a i v held =>
    refine ⟨chain, aside, (valid.heap.setElement a v.tag).set a i ?_⟩
    intro b same
    rw [Heap.setElement, Heap.size_modify]
    exact held b same
  | @addItem a v held =>
    refine ⟨chain, aside, (valid.heap.setElement a v.tag).push a ?_⟩
    intro b same
    rw [Heap.setElement, Heap.size_modify]
    exact held b same
  | @enter f types skipped fits =>
    refine ⟨?_, ?_, valid.heap⟩
    · rintro g (_ | ⟨_, mem⟩)
      · exact fits
      · exact chain g (List.mem_of_mem_drop mem)
    · rintro s (_ | ⟨_, mem⟩) g hg
      · exact chain g (List.mem_of_mem_take hg)
      · exact aside s mem g hg
  | @leave scope types rest same =>
    refine ⟨?_, ?_, valid.heap⟩
    · intro g mem
      rcases List.mem_append.mp mem with back | inner
      · exact aside (scope, types) (by rw [same]; exact .head _) g back
      · exact chain g (List.mem_of_mem_drop inner)
    · intro s mem
      exact aside s (by rw [same]; exact .tail _ mem)

end Change

namespace Moment

variable {p q : Moment}

theorem Reaches.grows (h : p.Reaches q) : p.heap.Grows q.heap := by
  induction h with
  | refl => exact .refl _
  | tail _ change ih => exact ih.trans change.grows

theorem Reaches.valid (h : p.Reaches q) (valid : p.Valid) : q.Valid := by
  induction h with
  | refl => exact valid
  | tail _ change ih => exact change.valid ih

end Moment

end Scriptlet
