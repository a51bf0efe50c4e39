import Scriptlet.Number.Layout
import Scriptlet.Value.Basic

/-!
# The array heap

All arrays of a run live in one heap.  An array has elements and an element type;
the element type of an array that was written without elements is not known until
the array is bound to a declared type or gets its first element.

## Main definitions

* `Cell` — the storage of one array
* `Heap` — the storage of all arrays
* `Heap.alloc`, `Heap.set`, `Heap.push`, `Heap.setElement` — creating and changing
* `Heap.typeOf` — the type of a value
* `Heap.conforms`, `Heap.adopt`, `Heap.sameShape` — the rules of binding
* `Heap.equal`, `Heap.text` — comparison and text of values
* `Heap.build`, `Heap.snapshot` — from and to written-out values

## Main statements

* `Heap.cell_alloc`, `Heap.cell_modify` — which cells a change touches
* `Heap.get?_set_self`, `Heap.get?_push_self` — the elements after a change

## Design decisions

* Storage is never given back, so a handle stays valid and new storage has a new
  handle.
* Arrays may hold arrays.  As long as no array contains itself, a chain of arrays
  inside arrays is no longer than the number of cells; that number bounds the
  recursion of comparison and text.
* A handle that the heap did not give out reads as an empty array.
-/

namespace Scriptlet

/-- **Cell.**  The storage of one array. -/
structure Cell where
  /-- The elements. -/
  items : Array Value
  /-- What the elements are. -/
  element : DataType
deriving Inhabited

/-- **Heap.**  The storage of all arrays. -/
structure Heap where
  /-- The cells, at the slots of their handles. -/
  cells : Array Cell
deriving Inhabited

namespace Heap

/-- The heap without arrays. -/
def empty : Heap := ⟨.empty⟩

/-- The number of arrays. -/
def size (heap : Heap) : Nat := heap.cells.size

/-- The cell of an array. -/
def cell (heap : Heap) (a : Handle) : Cell :=
  heap.cells[a.slot]?.getD ⟨.empty, .unknown⟩

/-- Creates an array. -/
def alloc (heap : Heap) (items : Array Value) (element : DataType) : Handle × Heap :=
  (⟨heap.size⟩, ⟨heap.cells.push ⟨items, element⟩⟩)

/-- The element type of a new array: that of its first element. -/
def elementOf (items : Array Value) : DataType :=
  (items[0]?.map Value.tag).getD .unknown

/-- Creates an array that takes its element type from its first element. -/
def ofElements (heap : Heap) (items : Array Value) : Handle × Heap :=
  heap.alloc items (elementOf items)

/-- Changes the cell of an array. -/
def modify (heap : Heap) (a : Handle) (f : Cell → Cell) : Heap :=
  ⟨heap.cells.modify a.slot f⟩

/-- The number of elements of an array. -/
def length (heap : Heap) (a : Handle) : Nat := (heap.cell a).items.size

/-- The element type of an array. -/
def element (heap : Heap) (a : Handle) : DataType := (heap.cell a).element

/-- The element of an array at a place. -/
def get? (heap : Heap) (a : Handle) (i : Nat) : Option Value := (heap.cell a).items[i]?

/-- Replaces the element at a place; nothing happens past the end. -/
def set (heap : Heap) (a : Handle) (i : Nat) (v : Value) : Heap :=
  heap.modify a fun ⟨items, element⟩ => ⟨items.setIfInBounds i v, element⟩

/-- Appends an element. -/
def push (heap : Heap) (a : Handle) (v : Value) : Heap :=
  heap.modify a fun ⟨items, element⟩ => ⟨items.push v, element⟩

/-- Replaces the element type. -/
def setElement (heap : Heap) (a : Handle) (element : DataType) : Heap :=
  heap.modify a fun ⟨items, _⟩ => ⟨items, element⟩

/-! ### Cells after a change -/

@[simp] theorem size_alloc (heap : Heap) (items : Array Value) (element : DataType) :
    (heap.alloc items element).2.size = heap.size + 1 :=
  Array.size_push _

@[simp] theorem size_modify (heap : Heap) (a : Handle) (f : Cell → Cell) :
    (heap.modify a f).size = heap.size :=
  Array.size_modify

/-- **Cells after creation.**  The new array has its own cell; the others keep theirs. -/
theorem cell_alloc (heap : Heap) (items : Array Value) (element : DataType) (b : Handle) :
    (heap.alloc items element).2.cell b =
      if b = (heap.alloc items element).1 then ⟨items, element⟩ else heap.cell b := by
  obtain ⟨slot⟩ := b
  simp only [alloc, cell, size, Array.getElem?_push, Handle.mk.injEq]
  by_cases new : slot = heap.cells.size
  · simp [new]
  · simp [new]

/-- **Cells after a change.**  Only the cell of the changed array is different. -/
theorem cell_modify (heap : Heap) (a b : Handle) (f : Cell → Cell) :
    (heap.modify a f).cell b =
      if a = b ∧ b.slot < heap.size then f (heap.cell b) else heap.cell b := by
  obtain ⟨slot⟩ := a
  obtain ⟨other⟩ := b
  simp only [modify, cell, size, Array.getElem?_modify, Handle.mk.injEq]
  by_cases same : slot = other
  · subst same
    by_cases inside : slot < heap.cells.size
    · simp [inside]
    · simp [inside]
  · simp [same]

/-- A change of an array leaves the cells of other arrays as they are. -/
theorem cell_modify_of_ne (heap : Heap) {a b : Handle} (f : Cell → Cell) (h : a ≠ b) :
    (heap.modify a f).cell b = heap.cell b := by
  rw [cell_modify, if_neg fun both => h both.1]

@[simp] theorem length_set (heap : Heap) (a b : Handle) (i : Nat) (v : Value) :
    (heap.set a i v).length b = heap.length b := by
  simp only [length, set, cell_modify]
  split <;> simp

@[simp] theorem element_set (heap : Heap) (a b : Handle) (i : Nat) (v : Value) :
    (heap.set a i v).element b = heap.element b := by
  simp only [element, set, cell_modify]
  split <;> rfl

@[simp] theorem element_push (heap : Heap) (a b : Handle) (v : Value) :
    (heap.push a v).element b = heap.element b := by
  simp only [element, push, cell_modify]
  split <;> rfl

@[simp] theorem length_setElement (heap : Heap) (a b : Handle) (element : DataType) :
    (heap.setElement a element).length b = heap.length b := by
  simp only [length, setElement, cell_modify]
  split <;> rfl

@[simp] theorem get?_setElement (heap : Heap) (a b : Handle) (element : DataType) (i : Nat) :
    (heap.setElement a element).get? b i = heap.get? b i := by
  simp only [get?, setElement, cell_modify]
  split <;> rfl

/-- An append makes an array of the heap longer by one. -/
theorem length_push_self (heap : Heap) {a : Handle} (v : Value) (h : a.slot < heap.size) :
    (heap.push a v).length a = heap.length a + 1 := by
  simp [length, push, cell_modify, h]

/-- An array with an element is in the heap. -/
theorem slot_lt_of_lt_length {heap : Heap} {a : Handle} {i : Nat} (h : i < heap.length a) :
    a.slot < heap.size := by
  by_cases inside : a.slot < heap.cells.size
  · exact inside
  · rw [length, cell, Array.getElem?_eq_none (Nat.le_of_not_lt inside)] at h
    exact absurd h (Nat.not_lt_zero i)

/-- **Elements after a replacement.** -/
theorem get?_set_self (heap : Heap) {a : Handle} {i : Nat} (v : Value)
    (h : i < heap.length a) (j : Nat) :
    (heap.set a i v).get? a j = if i = j then some v else heap.get? a j := by
  have inside := slot_lt_of_lt_length h
  have place : i < (heap.cell a).items.size := h
  simp only [get?, set, cell_modify, inside, and_self, if_true, Array.getElem?_setIfInBounds,
    place]

/-- **Elements after an append.** -/
theorem get?_push_self (heap : Heap) {a : Handle} (v : Value) (h : a.slot < heap.size) (j : Nat) :
    (heap.push a v).get? a j = if j = heap.length a then some v else heap.get? a j := by
  simp only [get?, length, push, cell_modify, h, and_self, if_true, Array.getElem?_push]
  rfl

/-- The element type that was set is the element type of the array. -/
theorem element_setElement_self (heap : Heap) {a : Handle} (element : DataType)
    (h : a.slot < heap.size) : (heap.setElement a element).element a = element := by
  simp [Heap.element, setElement, cell_modify, h]

/-! ### Types of values -/

/-- **Type of a value.**  For an array, arrays of its element type. -/
def typeOf (heap : Heap) : Value → TypeSpec
  | .array a => .arrayOf (heap.element a)
  | v => .scalar v.tag

/-- Whether a value may be bound to something declared as `spec`. -/
def conforms (heap : Heap) (v : Value) (spec : TypeSpec) : Bool :=
  (heap.typeOf v).conformsTo spec

/-- Whether `new` may replace `held` in a reassignment. -/
def sameShape (heap : Heap) (held new : Value) : Bool :=
  (heap.typeOf held).sameShape (heap.typeOf new)

/-- **Adoption.**  An array whose element type is not known takes that of `spec`;
other values stay as they are. -/
def adopt (heap : Heap) (v : Value) (spec : TypeSpec) : Heap :=
  match v with
  | .array a => if heap.element a = .unknown then heap.setElement a spec.base else heap
  | _ => heap

/-! ### Comparison and text -/

/-- Comparison of values in arrays nested at most `depth` deep. -/
def equalWithin (heap : Heap) : Nat → Value → Value → Bool
  | _, .number x, .number y => x == y
  | _, .text s, .text t => s == t
  | _, .boolean b, .boolean c => b == c
  | _, .void, .void => true
  | 0, .array a, .array b => a == b
  | depth + 1, .array a, .array b =>
    a == b ||
      (heap.length a == heap.length b &&
        ((heap.cell a).items.toList.zip (heap.cell b).items.toList).all fun (v, w) =>
          equalWithin heap depth v w)
  | _, _, _ => false

/-- **Equality of values.**  Numbers compare as doubles do, so that not-a-number
differs from itself.  Arrays are equal if they are the same array, or if they
are equally long and their elements are equal; element types do not matter.
Values of different data types differ. -/
def equal (heap : Heap) (v w : Value) : Bool :=
  heap.equalWithin heap.size v w

/-- The text of a value in arrays nested at most `depth` deep. -/
def textWithin (heap : Heap) : Nat → Value → String
  | _, .number x => Number.text x
  | _, .text s => s
  | _, .boolean b => if b then "true" else "false"
  | _, .void => "void"
  | 0, .array _ => "[]"
  | depth + 1, .array a =>
    "[" ++ String.intercalate ", " ((heap.cell a).items.toList.map (textWithin heap depth)) ++ "]"

/-- **Text of a value** as scripts print it. -/
def text (heap : Heap) (v : Value) : String :=
  heap.textWithin heap.size v

/-! ### Written-out values -/

mutual

/-- Creates the arrays of a written-out value, inner ones first. -/
def build (heap : Heap) : Form → Value × Heap
  | .held v => (v, heap)
  | .array element forms =>
    let (items, heap) := buildAll heap forms
    let (a, heap) := heap.alloc items (element.getD (elementOf items))
    (.array a, heap)

/-- Creates the arrays of written-out values from left to right. -/
def buildAll (heap : Heap) : List Form → Array Value × Heap
  | [] => (.empty, heap)
  | form :: forms =>
    let (v, heap) := build heap form
    let (vs, heap) := buildAll heap forms
    (.mk (v :: vs.toList), heap)

end

/-- Writes out a value in arrays nested at most `depth` deep. -/
def snapshotWithin (heap : Heap) : Nat → Value → Form
  | depth + 1, .array a =>
    .array (some (heap.element a)) ((heap.cell a).items.toList.map (snapshotWithin heap depth))
  | _, v => .held v

/-- Writes out a value with the elements that it has now. -/
def snapshot (heap : Heap) (v : Value) : Form :=
  heap.snapshotWithin heap.size v

end Heap

end Scriptlet
