import Scriptlet.Value.Heap

/-!
# Growth of the heap

Scripts and builtins never take anything away from a heap: arrays stay, they do not
get shorter, and an element type that is known stays what it is.

## Main definitions

* `Heap.Holds` — an array value refers to an array of the heap
* `Heap.Sound` — the same for all elements of arrays
* `Heap.Grows` — what may have happened to a heap

## Main statements

* `Heap.Grows.typeOf_eq` — a value whose type is known keeps it
* `Heap.Grows.modify` — changes of one cell that make a heap grow
* `Heap.Sound.modify` — changes of one cell that keep a heap sound

## Design decisions

* Growth says nothing of arrays that do not exist.  These read as arrays of unknown
  element type, but adopting a type does nothing to them; so whatever is claimed of
  adoption needs `Heap.Holds`.
-/

namespace Scriptlet

namespace Heap

/-- **Held values.**  An array value refers to an array of the heap. -/
def Holds (heap : Heap) (v : Value) : Prop := ∀ a, v = .array a → a.slot < heap.size

/-- **Soundness.**  The elements of arrays are held. -/
def Sound (heap : Heap) : Prop := ∀ a, ∀ v ∈ (heap.cell a).items, heap.Holds v

/-- **Growth** of a heap. -/
structure Grows (heap heap' : Heap) : Prop where
  /-- No array is taken away. -/
  size_le : heap.size ≤ heap'.size
  /-- No array gets shorter. -/
  length_le : ∀ a, heap.length a ≤ heap'.length a
  /-- Known element types stay. -/
  element_eq : ∀ a, a.slot < heap.size → heap.element a ≠ .unknown →
    heap'.element a = heap.element a

variable {heap heap' heap'' : Heap}

theorem holds_of_tag_ne {v : Value} (h : v.tag ≠ .array) : heap.Holds v := by
  rintro a rfl
  exact absurd rfl h

theorem holds_array {a : Handle} (h : a.slot < heap.size) : heap.Holds (.array a) := by
  rintro b same
  cases same
  exact h

namespace Grows

theorem refl (heap : Heap) : Grows heap heap :=
  ⟨Nat.le_refl _, fun _ => Nat.le_refl _, fun _ _ _ => rfl⟩

theorem trans (first : Grows heap heap') (second : Grows heap' heap'') : Grows heap heap'' where
  size_le := Nat.le_trans first.size_le second.size_le
  length_le a := Nat.le_trans (first.length_le a) (second.length_le a)
  element_eq a inside known := by
    have same := first.element_eq a inside known
    rw [← same]
    exact second.element_eq a (Nat.lt_of_lt_of_le inside first.size_le) (by rw [same]; exact known)

theorem holds (h : Grows heap heap') {v : Value} (held : heap.Holds v) : heap'.Holds v :=
  fun a same => Nat.lt_of_lt_of_le (held a same) h.size_le

/-- **A value whose type is known keeps it.** -/
theorem typeOf_eq (h : Grows heap heap') {v : Value} (held : heap.Holds v)
    (known : heap.typeOf v ≠ .arrayOf .unknown) : heap'.typeOf v = heap.typeOf v := by
  cases v with
  | array a =>
    have element : heap.element a ≠ .unknown := fun same => known (by rw [typeOf, same])
    rw [typeOf, typeOf, h.element_eq a (held a rfl) element]
  | number x | text s | boolean b | void => rfl

/-- Creating an array makes a heap grow. -/
theorem alloc (heap : Heap) (items : Array Value) (type : DataType) :
    Grows heap (heap.alloc items type).2 := by
  have old : ∀ {a : Handle}, a.slot < heap.size →
      (heap.alloc items type).2.cell a = heap.cell a := by
    rintro ⟨slot⟩ inside
    rw [cell_alloc, if_neg]
    intro new
    have : slot = heap.size := congrArg Handle.slot new
    exact Nat.ne_of_lt inside this
  refine ⟨?_, ?_, ?_⟩
  · rw [size_alloc]
    exact Nat.le_succ _
  -- A handle out of range names no elements before, and may name the new array after.
  · intro a
    by_cases inside : a.slot < heap.size
    · exact Nat.le_of_eq (by rw [length, length, old inside])
    · have empty : heap.length a = 0 := by
        rw [length, cell, Array.getElem?_eq_none (Nat.le_of_not_lt inside)]
        rfl
      rw [empty]
      exact Nat.zero_le _
  · intro a inside _
    rw [element, element, old inside]

/-- **Changing a cell** makes a heap grow if the cell does not lose elements or a
known element type. -/
theorem modify {a : Handle} {f : Cell → Cell}
    (longer : (heap.cell a).items.size ≤ (f (heap.cell a)).items.size)
    (kept : heap.element a ≠ .unknown → (f (heap.cell a)).element = heap.element a) :
    Grows heap (heap.modify a f) := by
  refine ⟨?_, ?_, ?_⟩
  · exact Nat.le_of_eq (size_modify heap a f).symm
  · intro b
    rw [length, length, cell_modify]
    split
    · next here =>
      obtain ⟨rfl, -⟩ := here
      exact longer
    · exact Nat.le_refl _
  · intro b _ known
    rw [element, cell_modify]
    split
    · next here =>
      obtain ⟨rfl, -⟩ := here
      exact kept known
    · rfl

theorem setElement {a : Handle} {element : DataType}
    (h : heap.element a = .unknown ∨ heap.element a = element) :
    Grows heap (heap.setElement a element) := by
  refine modify (Nat.le_refl _) ?_
  intro known
  exact (h.resolve_left known).symm

theorem set (heap : Heap) (a : Handle) (i : Nat) (v : Value) : Grows heap (heap.set a i v) :=
  modify (by simp) fun _ => rfl

theorem push (heap : Heap) (a : Handle) (v : Value) : Grows heap (heap.push a v) :=
  modify (by simp) fun _ => rfl

theorem adopt (heap : Heap) (v : Value) (spec : TypeSpec) : Grows heap (heap.adopt v spec) := by
  cases v with
  | array a =>
    simp only [Heap.adopt]
    split
    · next unknown => exact setElement (.inl unknown)
    · exact refl heap
  | number x | text s | boolean b | void => exact refl heap

end Grows

/-! ## Sound heaps -/

namespace Sound

/-- **Changing a cell** keeps a heap sound if the new elements are held. -/
theorem modify {a : Handle} {f : Cell → Cell} (sound : heap.Sound)
    (held : ∀ v ∈ (f (heap.cell a)).items, heap.Holds v) : (heap.modify a f).Sound := by
  intro b v mem
  have inside : heap.Holds v := by
    rw [cell_modify] at mem
    split at mem
    · next here =>
      obtain ⟨rfl, -⟩ := here
      exact held v mem
    · exact sound b v mem
  intro c same
  rw [size_modify]
  exact inside c same

theorem setElement (sound : heap.Sound) (a : Handle) (element : DataType) :
    (heap.setElement a element).Sound :=
  sound.modify (sound a)

theorem set (sound : heap.Sound) (a : Handle) (i : Nat) {v : Value} (held : heap.Holds v) :
    (heap.set a i v).Sound := by
  refine sound.modify fun w mem => ?_
  rcases Array.mem_or_eq_of_mem_setIfInBounds mem with old | rfl
  · exact sound a w old
  · exact held

theorem push (sound : heap.Sound) (a : Handle) {v : Value} (held : heap.Holds v) :
    (heap.push a v).Sound := by
  refine sound.modify fun w mem => ?_
  rcases Array.mem_push.mp mem with old | rfl
  · exact sound a w old
  · exact held

theorem adopt (sound : heap.Sound) (v : Value) (spec : TypeSpec) : (heap.adopt v spec).Sound := by
  cases v with
  | array a =>
    simp only [Heap.adopt]
    split
    · exact sound.setElement a spec.base
    · exact sound
  | number x | text s | boolean b | void => exact sound

theorem alloc (sound : heap.Sound) {items : Array Value} (held : ∀ v ∈ items, heap.Holds v)
    (element : DataType) : (heap.alloc items element).2.Sound := by
  intro a v mem
  refine (Grows.alloc heap items element).holds ?_
  rw [cell_alloc] at mem
  split at mem
  · exact held v mem
  · exact sound a v mem

end Sound

end Heap

end Scriptlet
