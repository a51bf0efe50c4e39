import Scriptlet.Proofs.Host.Effect

/-!
# Array builtins, one change at a time

The builtins that change an array do it in two changes: the element check fixes the element
type of an array that has none yet, and only then the element is stored.  Here they are written
in this order, each check on the heap that it finds, with a store that may still fail.  The
builtins of the host are these sequences: whatever is checked after the first change holds.

## Main definitions

* `Standard.claimElement` — the element check together with its change
* `Standard.storeAt` — a replacement that fails if there is no such place
* `Standard.orderedSet`, `Standard.orderedAdd` — the builtins, check by check and change by change

## Main statements

* `Standard.claimElement_eq` — a refused element leaves the element type alone
* `Standard.storeAt_claimed` — a place found before the element type was fixed is still there
* `Standard.arraySet_eq_ordered`, `Standard.arrayAdd_eq_ordered`
-/

namespace Scriptlet

namespace Heap

/-- An array keeps its cell if it is given the element type that it has. -/
theorem setElement_eq_self {heap : Heap} {a : Handle} {element : DataType}
    (h : heap.element a = element) : heap.setElement a element = heap := by
  obtain ⟨cells⟩ := heap
  simp only [setElement, modify, mk.injEq]
  apply Array.ext_getElem?
  intro slot
  rw [Array.getElem?_modify]
  split
  · next here =>
    subst here
    cases found : cells[a.slot]? with
    | none => rfl
    | some c =>
      simp only [Heap.element, cell, found, Option.getD_some] at h
      rw [← h]
      rfl
  · rfl

end Heap

namespace Standard

/-- **Element check with its change.**  An array of unknown element type takes that of the value
at once, before anything is stored. -/
def claimElement (a : Handle) (v : Value) : Action Unit := do
  let heap ← heap
  if v.tag = .array then throw (.nestedArray (heap.typeOf v))
  else if heap.element a = .unknown then modifyHeap fun heap => heap.setElement a v.tag
  else if heap.element a = v.tag then return ()
  else throw (.elementType (heap.typeOf v) (heap.element a))

/-- **Replacement**, which fails under the number that was given if there is no such place. -/
def storeAt (a : Handle) (x : Number) (i : Nat) (v : Value) : Action Unit := do
  let heap ← heap
  if i < heap.length a then modifyHeap fun heap => heap.set a i v
  else throw (.index x (heap.length a))

/-- `array_set`, check by check and change by change. -/
def orderedSet : List Value → Action (Option Value)
  | [array, index, v] => do
    let a ← check (Operation.array (← heap) array)
    let x ← check (Operation.number (← heap) index)
    let i ← check (Operation.position x ((← heap).length a))
    claimElement a v
    storeAt a x i v
    return none
  | args => throw (.arity "array_set" 3 args.length)

/-- `array_add`, check by check and change by change. -/
def orderedAdd : List Value → Action (Option Value)
  | [array, v] => do
    let a ← check (Operation.array (← heap) array)
    claimElement a v
    modifyHeap fun heap => heap.push a v
    return none
  | args => throw (.arity "array_add" 2 args.length)

/-- **The element check first decides and then changes**: it fixes the element type if the value
is taken, and changes nothing if it is not. -/
theorem claimElement_eq (a : Handle) (v : Value) (heap : Heap) (sink : Sink) (log : Log) :
    claimElement a v ⟨heap, sink, log⟩ =
      match checkElement heap a v with
      | .ok () => .ok () ⟨heap.setElement a v.tag, sink, log⟩
      | .error fault => .error fault ⟨heap, sink, log⟩ := by
  simp only [claimElement, checkElement, Standard.heap, bind, EStateM.bind]
  by_cases nested : v.tag = .array
  · simp only [nested, if_true]
    rfl
  · simp only [nested, if_false]
    by_cases unknown : heap.element a = .unknown
    · simp only [unknown, true_or, if_true]
      rfl
    · simp only [unknown, false_or, if_false]
      by_cases same : heap.element a = v.tag
      · simp only [same, if_true, Heap.setElement_eq_self]
        rfl
      · simp only [same, if_false]
        rfl

/-- **A place that was found is still there** after the element type was fixed, so the store
does not fail. -/
theorem storeAt_claimed {a : Handle} {i : Nat} {heap : Heap} (h : i < heap.length a) (x : Number)
    (v : Value) (sink : Sink) (log : Log) :
    storeAt a x i v ⟨heap.setElement a v.tag, sink, log⟩ =
      .ok () ⟨(heap.setElement a v.tag).set a i v, sink, log⟩ := by
  have still : i < (heap.setElement a v.tag).length a := by rwa [Heap.length_setElement]
  simp only [storeAt, Standard.heap, bind, EStateM.bind, still, if_true]
  rfl

/-- A check of the heap that is followed by something else. -/
theorem check_heap_bind {α β : Type} (f : Heap → Except Fault α) (k : α → Action β)
    (w : World Sink) :
    (do k (← check (f (← heap))) : Action β) w =
      match f w.heap with
      | .ok a => k a w
      | .error fault => .error fault w := by
  show EStateM.bind (check (f w.heap)) k w = _
  unfold EStateM.bind check
  cases f w.heap <;> rfl

/-- **`array_set` is its checks and changes in this order.** -/
theorem arraySet_eq_ordered (args : List Value) : arraySet args = orderedSet args := by
  funext ⟨heap, sink, log⟩
  unfold arraySet orderedSet
  rw [check_heap_bind]
  match args with
  | [array, index, v] =>
    simp only [arrayTarget, check_heap_bind]
    cases Operation.array heap array with
    | error fault => rfl
    | ok a =>
      cases Operation.number heap index with
      | error fault => rfl
      | ok x =>
        cases found : Operation.position x (heap.length a) with
        | error fault => simp only [found, bind, Except.bind]
        | ok i =>
          have claimed := claimElement_eq a v heap sink log
          simp only [found, bind, Except.bind, EStateM.bind]
          rw [claimed]
          cases checkElement heap a v with
          | error fault => rfl
          | ok _ =>
            dsimp only
            rw [storeAt_claimed (position_lt found)]
            rfl
  | [] | [_] | [_, _] | _ :: _ :: _ :: _ :: _ => rfl

/-- **`array_add` is its checks and changes in this order.** -/
theorem arrayAdd_eq_ordered (args : List Value) : arrayAdd args = orderedAdd args := by
  funext ⟨heap, sink, log⟩
  unfold arrayAdd orderedAdd
  rw [check_heap_bind]
  match args with
  | [array, v] =>
    simp only [arrayAddition, check_heap_bind]
    cases Operation.array heap array with
    | error fault => rfl
    | ok a =>
      have claimed := claimElement_eq a v heap sink log
      simp only [bind, Except.bind, EStateM.bind]
      rw [claimed]
      cases checkElement heap a v with
      | error fault => rfl
      | ok _ => rfl
  | [] | [_] | _ :: _ :: _ :: _ => rfl

end Standard

end Scriptlet
