import Scriptlet.Proofs.Watch.Typed

/-!
# Arrays never contain themselves

Storage is given out in order, and an array literal can only hold arrays that are there
already.  The builtins store no arrays.  So an array only ever holds arrays that are older
than itself, at every moment of every run.

## Main definitions

* `Heap.Stores` — an array has another one among its elements
* `Heap.Layered` — arrays hold only older arrays
* `Heap.Grounded` — no array is reached from itself, so values have a text and compare
* `Heap.Within` — the arrays inside of a value are nested less than so deep
* `Heap.Bounded` — arrays are nested no deeper than there are arrays

## Main statements

* `Heap.Bounded.text_array`, `Heap.Bounded.equal_array` — text and comparison in a bounded heap
* `Heap.grounded_of_rank` — a heap is grounded if its arrays have ranks
* `Heap.Layered.grounded` — a layered heap is grounded
* `Change.layered` — every change keeps the heap layered
* `Machine.grounded_executeWatched` — the heap is grounded at all moments of sequences of
  programs

## Design decisions

* That there is no cycle is not kept by itself when an element is stored.  The order of
  creation is, so that is the invariant.
* Text and comparison recurse on a bound on the depth.  `Grounded` says that the bound is
  never felt: both fulfil the equation of the recursion without it.
-/

namespace Scriptlet

namespace Heap

/-- **Storing.**  The array `a` has the array `b` among its elements. -/
def Stores (heap : Heap) (a b : Handle) : Prop := .array b ∈ (heap.cell a).items

/-- **Layered heap.**  Arrays hold only arrays that were created before them. -/
def Layered (heap : Heap) : Prop := ∀ a b, heap.Stores a b → b.slot < a.slot

/-- **Grounded heap.**  The arrays inside of arrays come to an end. -/
structure Grounded (heap : Heap) : Prop where
  /-- No array is reached from itself, in any number of steps. -/
  acyclic : ∀ a, ¬ Relation.TransGen heap.Stores a a
  /-- Going from an array to those that it holds ends. -/
  wellFounded : WellFounded fun b a => heap.Stores a b
  /-- The text of an array is made of the texts of its elements. -/
  text_array : ∀ a, heap.text (.array a) =
    "[" ++ String.intercalate ", " ((heap.cell a).items.toList.map heap.text) ++ "]"
  /-- An array is equal to another one if they are the same, or as long as each other with
  equal elements. -/
  equal_array : ∀ a b, a.slot < heap.size → heap.equal (.array a) (.array b) =
    (a == b || (heap.length a == heap.length b &&
      ((heap.cell a).items.toList.zip (heap.cell b).items.toList).all fun (v, w) =>
        heap.equal v w))

variable {heap : Heap}

/-! ## Depth -/

/-- An array that holds something is in the heap. -/
theorem slot_lt_of_mem {a : Handle} {v : Value} (h : v ∈ (heap.cell a).items) :
    a.slot < heap.size :=
  slot_lt_of_lt_length (Array.size_pos_of_mem h)

theorem all_congr_of_mem {α : Type} {l : List α} {p q : α → Bool} (h : ∀ x ∈ l, p x = q x) :
    l.all p = l.all q := by
  rw [Bool.eq_iff_iff, List.all_eq_true, List.all_eq_true]
  exact forall₂_congr fun x mem => by rw [h x mem]

/-- **Within a depth.**  Arrays inside of the value are nested less than `n` deep. -/
inductive Within (heap : Heap) : Nat → Value → Prop where
  /-- A value that is no array. -/
  | plain {n : Nat} {v : Value} : (∀ a, v ≠ .array a) → Within heap n v
  /-- An array whose elements are nested less deep. -/
  | array {n : Nat} {a : Handle} : (∀ v ∈ (heap.cell a).items, Within heap n v) →
    Within heap (n + 1) (.array a)

namespace Within

/-- A bound that is deep enough may be larger: the text stays. -/
theorem textWithin_eq {n m : Nat} (le : n ≤ m) {v : Value} (h : heap.Within n v) :
    heap.textWithin m v = heap.textWithin n v := by
  induction h generalizing m with
  | @plain n v plain =>
    cases v with
    | array a => exact absurd rfl (plain a)
    | number x | text s | boolean b | void => simp only [textWithin]
  | @array n a _ ih =>
    obtain ⟨k, rfl⟩ : ∃ k, m = k + 1 := ⟨m - 1, by omega⟩
    have items : (heap.cell a).items.toList.map (heap.textWithin k) =
        (heap.cell a).items.toList.map (heap.textWithin n) :=
      List.map_congr_left fun w mem =>
        ih w (Array.mem_toList_iff.mp mem) (Nat.le_of_succ_le_succ le)
    rw [textWithin, textWithin, items]

/-- A bound that is deep enough may be larger: the comparison stays.  Only the left value
has to be within the depth, since a comparison descends into both together. -/
theorem equalWithin_eq {n m : Nat} (le : n ≤ m) {v w : Value} (h : heap.Within n v) :
    heap.equalWithin m v w = heap.equalWithin n v w := by
  induction h generalizing m w with
  | @plain n v plain =>
    cases v with
    | array a => exact absurd rfl (plain a)
    | number x | text s | boolean b | void =>
      cases w <;> cases m <;> cases n <;> simp only [equalWithin]
  | @array n a _ ih =>
    obtain ⟨k, rfl⟩ : ∃ k, m = k + 1 := ⟨m - 1, by omega⟩
    cases w with
    | array b =>
      rw [equalWithin, equalWithin]
      congr 2
      refine all_congr_of_mem fun pair mem => ?_
      have left : pair.1 ∈ (heap.cell a).items := Array.mem_toList_iff.mp (List.of_mem_zip mem).1
      exact ih pair.1 left (Nat.le_of_succ_le_succ le)
    | number x | text s | boolean b | void => simp only [equalWithin]

end Within

/-- **Bounded heap.**  No array is nested deeper than there are arrays. -/
def Bounded (heap : Heap) : Prop := ∀ a, a.slot < heap.size → heap.Within heap.size (.array a)

namespace Bounded

theorem within (h : heap.Bounded) {n : Nat} (size : heap.size = n + 1) {a : Handle} {v : Value}
    (mem : v ∈ (heap.cell a).items) : heap.Within n v := by
  have depth := h a (slot_lt_of_mem mem)
  rw [size] at depth
  cases depth with
  | plain plain => exact absurd rfl (plain a)
  | array items => exact items v mem

/-- The bound on the depth of a text is never felt. -/
theorem text_array (h : heap.Bounded) (a : Handle) : heap.text (.array a) =
    "[" ++ String.intercalate ", " ((heap.cell a).items.toList.map heap.text) ++ "]" := by
  cases size : heap.size with
  | zero =>
    have none : (heap.cell a).items.toList = [] := by
      rw [List.eq_nil_iff_forall_not_mem]
      intro v mem
      exact absurd (slot_lt_of_mem (Array.mem_toList_iff.mp mem)) (by omega)
    rw [none, text, size]
    rfl
  | succ n =>
    have items : (heap.cell a).items.toList.map heap.text =
        (heap.cell a).items.toList.map (heap.textWithin n) := by
      refine List.map_congr_left fun v mem => ?_
      rw [text]
      exact (h.within size (Array.mem_toList_iff.mp mem)).textWithin_eq (by omega)
    rw [items, text, size, textWithin]

/-- The bound on the depth of a comparison is never felt. -/
theorem equal_array (h : heap.Bounded) (a b : Handle) (inside : a.slot < heap.size) :
    heap.equal (.array a) (.array b) = (a == b || (heap.length a == heap.length b &&
      ((heap.cell a).items.toList.zip (heap.cell b).items.toList).all fun (v, w) =>
        heap.equal v w)) := by
  obtain ⟨n, size⟩ : ∃ n, heap.size = n + 1 := ⟨heap.size - 1, by omega⟩
  rw [equal, size, equalWithin]
  congr 2
  refine all_congr_of_mem fun pair mem => ?_
  have left : pair.1 ∈ (heap.cell a).items := Array.mem_toList_iff.mp (List.of_mem_zip mem).1
  show heap.equalWithin n pair.1 pair.2 = heap.equalWithin heap.size pair.1 pair.2
  exact ((h.within size left).equalWithin_eq (by omega)).symm

end Bounded

/-! ## Ranks -/

section

variable {rank : Handle → Nat} (lower : ∀ a b, heap.Stores a b → rank b < rank a)

include lower

theorem rank_lt_of_path {a b : Handle} (path : Relation.TransGen heap.Stores a b) :
    rank b < rank a := by
  induction path with
  | single stores => exact lower _ _ stores
  | tail _ stores ih => exact Nat.lt_trans (lower _ _ stores) ih

/-- An array is nested no deeper than its rank. -/
theorem within_of_rank {n : Nat} {a : Handle} (below : rank a < n) :
    heap.Within n (.array a) := by
  induction n generalizing a with
  | zero => exact absurd below (Nat.not_lt_zero _)
  | succ n ih =>
    refine .array fun v mem => ?_
    cases v with
    | array b => exact ih (Nat.lt_of_lt_of_le (lower a b mem) (Nat.le_of_lt_succ below))
    | number x | text s | boolean c | void => exact .plain nofun

/-- **A heap is grounded** if its arrays have ranks below its size, greater ones than those of the
arrays that they hold. -/
theorem grounded_of_rank (bounded : ∀ a, a.slot < heap.size → rank a < heap.size) :
    heap.Grounded where
  acyclic _ path := Nat.lt_irrefl _ (rank_lt_of_path lower path)
  wellFounded := Subrelation.wf (lower _ _) (InvImage.wf rank Nat.lt_wfRel.wf)
  text_array := Bounded.text_array fun a inside => within_of_rank lower (bounded a inside)
  equal_array := Bounded.equal_array fun a inside => within_of_rank lower (bounded a inside)

end

namespace Layered

/-- **A layered heap is grounded**, the slots being the ranks. -/
theorem grounded (h : heap.Layered) : heap.Grounded :=
  grounded_of_rank h fun _ inside => inside

/-! ## Changes of a heap -/

/-- **A new array** is younger than all arrays that there are. -/
theorem alloc (h : heap.Layered) {items : Array Value} (held : ∀ v ∈ items, heap.Holds v)
    (element : DataType) : (heap.alloc items element).2.Layered := by
  intro a b stores
  rw [Stores, cell_alloc] at stores
  split at stores
  · next new =>
    subst new
    exact held _ stores b rfl
  · exact h a b stores

/-- **Changing a cell** keeps a heap layered if no array gets into it. -/
theorem modify (h : heap.Layered) {a : Handle} {f : Cell → Cell}
    (kept : ∀ b, .array b ∈ (f (heap.cell a)).items → heap.Stores a b) :
    (heap.modify a f).Layered := by
  intro c b stores
  rw [Stores, cell_modify] at stores
  split at stores
  · next here =>
    obtain ⟨rfl, -⟩ := here
    exact h _ b (kept b stores)
  · exact h c b stores

theorem setElement (h : heap.Layered) (a : Handle) (element : DataType) :
    (heap.setElement a element).Layered :=
  h.modify fun _ stores => stores

theorem set (h : heap.Layered) (a : Handle) (i : Nat) {v : Value} (plain : v.tag ≠ .array) :
    (heap.set a i v).Layered := by
  refine h.modify fun b stores => ?_
  rcases Array.mem_or_eq_of_mem_setIfInBounds stores with old | rfl
  · exact old
  · exact absurd rfl plain

theorem push (h : heap.Layered) (a : Handle) {v : Value} (plain : v.tag ≠ .array) :
    (heap.push a v).Layered := by
  refine h.modify fun b stores => ?_
  rcases Array.mem_push.mp stores with old | rfl
  · exact old
  · exact absurd rfl plain

theorem adopt (h : heap.Layered) (v : Value) (spec : TypeSpec) : (heap.adopt v spec).Layered := by
  cases v with
  | array a =>
    rw [Heap.adopt]
    split
    · exact h.setElement a spec.base
    · exact h
  | number x | text s | boolean b | void => exact h

theorem adoptHeld (h : heap.Layered) (held v : Value) :
    (Eval.adoptHeld held v heap).Layered := by
  cases held with
  | array a => exact h.adopt v _
  | number x | text s | boolean b | void => exact h

end Layered

theorem layered_empty : empty.Layered := by
  intro a b stores
  exact absurd stores (Array.not_mem_empty _)

end Heap

/-! ## All moments -/

/-- **Every change keeps the heap layered.** -/
theorem Change.layered {p q : Moment} (layered : p.heap.Layered) (h : Change p q) :
    q.heap.Layered := by
  cases h with
  | create held => exact layered.alloc (by simpa using held) _
  | adopt | declare => exact layered.adopt _ _
  | reassign => exact layered.adoptHeld _ _
  | setItem _ plain => exact (layered.setElement _ _).set _ _ plain
  | addItem _ plain => exact (layered.setElement _ _).push _ plain
  | define | enter | leave => exact layered

theorem Moment.Reaches.layered {p q : Moment} (h : p.Reaches q) (layered : p.heap.Layered) :
    q.heap.Layered := by
  induction h with
  | refl => exact layered
  | tail _ change ih => exact change.layered ih

/-- **Arrays never become cyclic.**  Any programs are executed one after the other in one
scope, each with its own settings and fuel, and each may fail.  Then at every moment no
array is reached from itself through the elements of arrays, and the recursions that give
the text of a value and compare two values come to an end by themselves.  The watch that
tells the moments changes nothing of the run. -/
theorem Machine.grounded_executeWatched (sink : Sink) (log : Log) (runs : List Run) :
    ((startWatched sink log).executeWatched Standard.host runs).forget =
        (Machine.start sink log).execute Standard.host runs ∧
      (∀ p ∈ ((startWatched sink log).executeWatched Standard.host runs).past, p.heap.Grounded) ∧
      ((Machine.start sink log).execute Standard.host runs).world.heap.Grounded := by
  have same := forget_executeWatched Standard.host (startWatched sink log) runs
  have onward := onward_executeWatched (startWatched sink log) (valid_startWatched sink log) runs
  have reached : ∀ {p}, (startWatched sink log).now.Reaches p → p.heap.Grounded :=
    fun h => (h.layered Heap.layered_empty).grounded
  refine ⟨same, ?_, ?_⟩
  · intro p mem
    obtain ⟨new, hpast, between, -⟩ := onward.past
    rw [hpast] at mem
    rcases List.mem_append.mp mem with kept | ⟨⟨⟩⟩
    exact reached (between p kept).1
  · -- The last state of the run is that of the watched run without the watch.
    have last : ((Machine.start sink log).execute Standard.host runs).world.heap =
        ((startWatched sink log).executeWatched Standard.host runs).now.heap :=
      congrArg (fun m => m.world.heap) same.symm
    rw [last]
    exact reached onward.reaches

end Scriptlet
