import Scriptlet.Proofs.Watch.Typed

/-!
# The life of an array

What may happen to an array between two moments of a run.  It gets longer, and its element
type becomes known once and for all; before that it is empty.

## Main definitions

* `Machine.moments` — all moments of a run, the present one included
* `Heap.Settled` — arrays whose element type is not known are empty

## Main statements

* `Machine.pairwise_reaches`, `Machine.reaches_moments` — the moments of a run lie on one path of
  changes
* `Change.settled` — every change keeps the heap settled
* `Machine.grows_executeWatched` — arrays grow, over all moments of sequences of programs

## Design decisions

* Three rules give an element type: adoption at a declaration or a call, adoption at a
  reassignment, and the first element that is stored.  All of them look at the type first, so the
  empty arrays are the only ones that they reach.
-/

namespace Scriptlet

/-! ## Moments in order -/

namespace Machine

/-- **Moments** of the run so far, the latest first. -/
def moments {σ : Type} (m : Machine (Watch σ)) : List Moment := m.now :: m.past

variable (sink : Sink) (log : Log) (runs : List Run)

/-- Each moment is reached from those before it. -/
theorem pairwise_reaches :
    ((startWatched sink log).executeWatched Standard.host runs).moments.Pairwise
      fun q p => p.Reaches q := by
  have onward := onward_executeWatched (startWatched sink log) (valid_startWatched sink log) runs
  obtain ⟨new, past, between, ordered⟩ := onward.past
  rw [show (startWatched sink log).past = [] from rfl, List.append_nil] at past
  rw [moments, past, List.pairwise_cons]
  exact ⟨fun p mem => (between p mem).2, ordered⟩

/-- All moments are reached from the start. -/
theorem reaches_moments {p : Moment}
    (mem : p ∈ ((startWatched sink log).executeWatched Standard.host runs).moments) :
    (startWatched sink log).now.Reaches p := by
  have onward := onward_executeWatched (startWatched sink log) (valid_startWatched sink log) runs
  obtain ⟨new, past, between, -⟩ := onward.past
  rw [show (startWatched sink log).past = [] from rfl, List.append_nil] at past
  rw [moments, past] at mem
  rcases List.mem_cons.mp mem with rfl | old
  · exact onward.reaches
  · exact (between p old).1

end Machine

/-! ## Settled heaps -/

/-- No value is of the type that is not known. -/
theorem Value.tag_ne_unknown (v : Value) : v.tag ≠ .unknown := by
  cases v <;> simp [tag]

namespace Heap

/-- **Settled heap.**  An array whose element type is not known has no elements. -/
def Settled (heap : Heap) : Prop := ∀ a, heap.element a = .unknown → heap.length a = 0

variable {heap : Heap}

theorem settled_empty : empty.Settled := fun _ _ => rfl

/-- A new array has no element type only if it has no elements. -/
theorem size_eq_zero_of_elementOf {items : Array Value} (h : elementOf items = .unknown) :
    items.size = 0 := by
  unfold elementOf at h
  cases first : items[0]? with
  | none => simpa using first
  | some v =>
    rw [first] at h
    exact absurd h v.tag_ne_unknown

namespace Settled

theorem ofElements (h : heap.Settled) (items : Array Value) :
    (heap.ofElements items).2.Settled := by
  intro a unknown
  rw [Heap.ofElements, element, cell_alloc] at unknown
  rw [Heap.ofElements, length, cell_alloc]
  split at unknown
  · next new =>
    rw [if_pos new]
    exact size_eq_zero_of_elementOf unknown
  · next old =>
    rw [if_neg old]
    exact h a unknown

/-- **Changing a cell** keeps a heap settled if the cell is settled after the change. -/
theorem modify (h : heap.Settled) {a : Handle} {f : Cell → Cell}
    (kept : (f (heap.cell a)).element = .unknown → (f (heap.cell a)).items.size = 0) :
    (heap.modify a f).Settled := by
  intro b unknown
  rw [element, cell_modify] at unknown
  rw [length, cell_modify]
  split at unknown
  · next here =>
    rw [if_pos here]
    obtain ⟨rfl, -⟩ := here
    exact kept unknown
  · next elsewhere =>
    rw [if_neg elsewhere]
    exact h b unknown

theorem setElement (h : heap.Settled) (a : Handle) {type : DataType} (known : type ≠ .unknown) :
    (heap.setElement a type).Settled :=
  h.modify fun unknown => absurd unknown known

theorem set (h : heap.Settled) (a : Handle) (i : Nat) (v : Value) : (heap.set a i v).Settled :=
  h.modify fun unknown => by
    rw [Array.size_setIfInBounds]
    exact h a unknown

theorem push (h : heap.Settled) {a : Handle} (v : Value) (known : heap.element a ≠ .unknown) :
    (heap.push a v).Settled :=
  h.modify fun unknown => absurd unknown known

/-- Only an array without elements adopts a type. -/
theorem adopt (h : heap.Settled) (v : Value) (spec : TypeSpec) : (heap.adopt v spec).Settled := by
  cases v with
  | array a =>
    rw [Heap.adopt]
    split
    · next unknown => exact h.modify fun _ => h a unknown
    · exact h
  | number x | text s | boolean b | void => exact h

theorem adoptHeld (h : heap.Settled) (held v : Value) : (Eval.adoptHeld held v heap).Settled := by
  cases held with
  | array a => exact h.adopt v _
  | number x | text s | boolean b | void => exact h

end Settled

end Heap

/-- **Every change keeps the heap settled.** -/
theorem Change.settled {p q : Moment} (settled : p.heap.Settled) (h : Change p q) :
    q.heap.Settled := by
  cases h with
  | create => exact settled.ofElements _
  | adopt | declare => exact settled.adopt _ _
  | reassign => exact settled.adoptHeld _ _
  | @setItem a i v => exact (settled.setElement a v.tag_ne_unknown).set a i v
  | @addItem a v _ _ inside =>
    refine (settled.setElement a v.tag_ne_unknown).push v ?_
    rw [Heap.element_setElement_self _ _ inside]
    exact v.tag_ne_unknown
  | define | enter | leave => exact settled

theorem Moment.Reaches.settled {p q : Moment} (h : p.Reaches q) (settled : p.heap.Settled) :
    q.heap.Settled := by
  induction h with
  | refl => exact settled
  | tail _ change ih => exact change.settled ih

/-! ## All moments -/

/-- **Arrays only grow, and get one element type.**  Any programs are executed one after the
other in one scope, each with its own settings and fuel, and each may fail.  From each moment
to every later one no array is lost or gets shorter, and an element type that is known stays;
so an element type changes at most once, from unknown to known.  As long as it is unknown, the
array is empty.  The watch that tells the moments changes nothing of the run. -/
theorem Machine.grows_executeWatched (sink : Sink) (log : Log) (runs : List Run) :
    ((startWatched sink log).executeWatched Standard.host runs).forget =
        (Machine.start sink log).execute Standard.host runs ∧
      (((startWatched sink log).executeWatched Standard.host runs).moments.Pairwise
        fun q p => p.heap.Grows q.heap) ∧
      ∀ p ∈ ((startWatched sink log).executeWatched Standard.host runs).moments,
        p.heap.Settled := by
  refine ⟨forget_executeWatched Standard.host _ runs, ?_, ?_⟩
  · exact (pairwise_reaches sink log runs).imp fun reaches => reaches.grows
  · intro p mem
    exact (reaches_moments sink log runs mem).settled Heap.settled_empty

end Scriptlet
