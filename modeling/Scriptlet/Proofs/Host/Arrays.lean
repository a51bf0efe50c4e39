import Scriptlet.Proofs.Host.Ordered
import Scriptlet.Proofs.Number.Unpacked

/-!
# The laws of arrays

When the array builtins succeed, and what has changed then.  Arrays grow at the end and are
shared: what is stored through one handle is found through every handle of the same storage, and
no other storage is touched.

## Main definitions

* `Value.Names` — a value is a number that is equal to a place
* `Heap.Takes` — an array takes a value as an element
* `Heap.Replaced`, `Heap.Appended` — the heap after an element was replaced or appended
* `Standard.Succeeds` — a call of the host succeeds
* `Standard.ArrayLaws` — the laws of the four builtins for one array

## Main statements

* `Heap.replaced_set`, `Heap.appended_push` — the changes that the builtins make
* `Standard.arrayGet_eq_ok_iff`, `Standard.arrayTarget_eq_ok_iff`,
  `Standard.arrayAddition_eq_ok_iff`, `Standard.arrayLen_eq` — when their checks are passed
* `Standard.array_laws`

## Design decisions

* Places are told by the exact value of a number, so both zeros name the first place.
* Positions and lengths of arrays up to `Number.maxExact` elements are exact as doubles.  Such a
  length is assumed of the array before the call only.
-/

namespace Scriptlet

/-- **A value names the place** `i`: it is a number, and equal to `i`. -/
def Value.Names (x : Value) (i : Nat) : Prop := ∃ y, x = .number y ∧ Number.value? y = some ↑i

namespace Heap

/-- **An array takes a value** that is no array and has its element type, if it has one. -/
def Takes (heap : Heap) (a : Handle) (v : Value) : Prop :=
  v.tag ≠ .array ∧ (heap.element a = .unknown ∨ heap.element a = v.tag)

/-- **After a replacement** of the element at `i` by `v`. -/
structure Replaced (heap heap' : Heap) (a : Handle) (i : Nat) (v : Value) : Prop where
  /-- Every handle of the storage shows the new element. -/
  item : ∀ b : Handle, b.slot = a.slot → heap'.get? b i = some v
  /-- The other elements are as before. -/
  others : ∀ j, j ≠ i → heap'.get? a j = heap.get? a j
  /-- The length is as before. -/
  length : heap'.length a = heap.length a
  /-- The element type is that of the new element. -/
  element : heap'.element a = v.tag
  /-- Other storage is as before. -/
  elsewhere : ∀ b : Handle, b.slot ≠ a.slot → heap'.cell b = heap.cell b
  /-- There is as much storage as before. -/
  size : heap'.size = heap.size

/-- **After `v` was appended.** -/
structure Appended (heap heap' : Heap) (a : Handle) (v : Value) : Prop where
  /-- Every handle of the storage shows the new element at the end. -/
  item : ∀ b : Handle, b.slot = a.slot → heap'.get? b (heap.length a) = some v
  /-- The elements before it are those of before. -/
  others : ∀ j < heap.length a, heap'.get? a j = heap.get? a j
  /-- The array is longer by one. -/
  length : heap'.length a = heap.length a + 1
  /-- The element type is that of the new element. -/
  element : heap'.element a = v.tag
  /-- Other storage is as before. -/
  elsewhere : ∀ b : Handle, b.slot ≠ a.slot → heap'.cell b = heap.cell b
  /-- There is as much storage as before. -/
  size : heap'.size = heap.size

/-- Handles of one slot are the same. -/
theorem eq_of_slot_eq {a b : Handle} (h : b.slot = a.slot) : b = a := by
  cases a
  cases b
  exact congrArg Handle.mk h

/-- The replacement of an element by one that fixes the element type. -/
theorem replaced_set {heap : Heap} {a : Handle} {i : Nat} (v : Value) (h : i < heap.length a) :
    Replaced heap ((heap.setElement a v.tag).set a i v) a i v := by
  have inside := slot_lt_of_lt_length h
  have place : i < (heap.setElement a v.tag).length a := by rwa [length_setElement]
  constructor
  · intro b shared
    obtain rfl := eq_of_slot_eq shared
    rw [get?_set_self _ v place, if_pos rfl]
  · intro j other
    rw [get?_set_self _ v place, if_neg (Ne.symm other), get?_setElement]
  · rw [length_set, length_setElement]
  · rw [element_set, element_setElement_self _ _ inside]
  · intro b other
    have apart : a ≠ b := by
      rintro rfl
      exact other rfl
    simp only [set, setElement]
    rw [cell_modify_of_ne _ _ apart, cell_modify_of_ne _ _ apart]
  · simp only [set, setElement, size_modify]

/-- The addition of an element that fixes the element type. -/
theorem appended_push {heap : Heap} {a : Handle} (v : Value) (inside : a.slot < heap.size) :
    Appended heap ((heap.setElement a v.tag).push a v) a v := by
  have still : a.slot < (heap.setElement a v.tag).size := by
    rwa [setElement, size_modify]
  constructor
  · intro b shared
    obtain rfl := eq_of_slot_eq shared
    rw [get?_push_self _ v still, length_setElement, if_pos rfl]
  · intro j before
    rw [get?_push_self _ v still, length_setElement, if_neg (Nat.ne_of_lt before),
      get?_setElement]
  · rw [length_push_self _ v still, length_setElement]
  · rw [element_push, element_setElement_self _ _ inside]
  · intro b other
    have apart : a ≠ b := by
      rintro rfl
      exact other rfl
    simp only [push, setElement]
    rw [cell_modify_of_ne _ _ apart, cell_modify_of_ne _ _ apart]
  · simp only [push, setElement, size_modify]

/-- A place of an array has an element. -/
theorem exists_get? {heap : Heap} {a : Handle} {i : Nat} (h : i < heap.length a) :
    ∃ item, heap.get? a i = some item :=
  ⟨_, Array.getElem?_eq_getElem h⟩

end Heap

namespace Standard

/-! ## The checks -/

/-- A sequence of checks is passed if each of them is. -/
theorem bind_eq_ok_iff {α β : Type} {r : Except Fault α} {f : α → Except Fault β} {b : β} :
    (r >>= f) = .ok b ↔ ∃ a, r = .ok a ∧ f a = .ok b := by
  constructor
  · exact ok_of_check_bind
  · rintro ⟨a, rfl, next⟩
    exact next

theorem array_eq_ok_iff {heap : Heap} {v : Value} {a : Handle} :
    Operation.array heap v = .ok a ↔ v = .array a := by
  constructor
  · exact array_ok
  · rintro rfl
    rfl

theorem number_eq_ok_iff {heap : Heap} {v : Value} {y : Number} :
    Operation.number heap v = .ok y ↔ v = .number y := by
  cases v <;> simp [Operation.number]

/-- A place is found for the number that is equal to it. -/
theorem position_eq_ok_iff {x : Number} {n i : Nat} (small : n ≤ Number.maxExact) :
    Operation.position x n = .ok i ↔ Number.value? x = some ↑i ∧ i < n := by
  rw [← Number.index?_eq_some_iff (Nat.le_succ_of_le small), Operation.position]
  cases Number.index? x n <;> simp

/-- An element is taken under the rule for it. -/
theorem checkElement_eq_ok_iff {heap : Heap} {a : Handle} {v : Value} {u : Unit} :
    checkElement heap a v = .ok u ↔ heap.Takes a v := by
  unfold checkElement Heap.Takes
  split
  · next nested => simp [nested]
  · next plain => split <;> simp [*]

variable {heap : Heap} {a : Handle} {x v : Value}

/-- **Reading** passes its checks for a number that is equal to a place, and gives the element
there. -/
theorem arrayGet_eq_ok_iff (small : heap.length a ≤ Number.maxExact) {item : Value} :
    arrayGet heap [.array a, x] = .ok item ↔
      ∃ i < heap.length a, x.Names i ∧ heap.get? a i = some item := by
  simp only [arrayGet, bind_eq_ok_iff, array_eq_ok_iff, number_eq_ok_iff]
  constructor
  · rintro ⟨_, ⟨⟩, y, rfl, i, found, read⟩
    obtain ⟨value, inside⟩ := (position_eq_ok_iff small).mp found
    obtain ⟨there, present⟩ := Heap.exists_get? inside
    rw [present] at read
    cases read
    exact ⟨i, inside, ⟨y, rfl, value⟩, present⟩
  · rintro ⟨i, inside, ⟨y, rfl, value⟩, present⟩
    refine ⟨a, rfl, y, rfl, i, (position_eq_ok_iff small).mpr ⟨value, inside⟩, ?_⟩
    rw [present]
    rfl

/-- **Replacing** passes its checks for a number that is equal to a place and a value that the
array takes. -/
theorem arrayTarget_eq_ok_iff (small : heap.length a ≤ Number.maxExact) {b : Handle} {i : Nat}
    {u : Value} :
    arrayTarget heap [.array a, x, v] = .ok (b, i, u) ↔
      (b = a ∧ u = v) ∧ i < heap.length a ∧ x.Names i ∧ heap.Takes a v := by
  simp only [arrayTarget, bind_eq_ok_iff, array_eq_ok_iff, number_eq_ok_iff,
    checkElement_eq_ok_iff]
  constructor
  · rintro ⟨_, ⟨⟩, y, rfl, i, found, -, takes, ⟨⟩⟩
    obtain ⟨value, inside⟩ := (position_eq_ok_iff small).mp found
    exact ⟨⟨rfl, rfl⟩, inside, ⟨y, rfl, value⟩, takes⟩
  · rintro ⟨⟨rfl, rfl⟩, inside, ⟨y, rfl, value⟩, takes⟩
    exact ⟨b, rfl, y, rfl, i, (position_eq_ok_iff small).mpr ⟨value, inside⟩, (), takes, rfl⟩

/-- **Appending** passes its check for a value that the array takes. -/
theorem arrayAddition_eq_ok_iff {b : Handle} {u : Value} :
    arrayAddition heap [.array a, v] = .ok (b, u) ↔ (b = a ∧ u = v) ∧ heap.Takes a v := by
  simp only [arrayAddition, bind_eq_ok_iff, array_eq_ok_iff, checkElement_eq_ok_iff]
  constructor
  · rintro ⟨_, ⟨⟩, -, takes, ⟨⟩⟩
    exact ⟨⟨rfl, rfl⟩, takes⟩
  · rintro ⟨⟨rfl, rfl⟩, takes⟩
    exact ⟨b, rfl, (), takes, rfl⟩

/-- **The length** is a number. -/
theorem arrayLen_eq (small : heap.length a ≤ Number.maxExact) :
    arrayLen heap [.array a] = .ok (.number (Number.ofMagnitude false (heap.length a))) := by
  have counted : Operation.ofCount (heap.length a) =
      .ok (Number.ofMagnitude false (heap.length a)) := by
    simp [Operation.ofCount, Number.ofCount?, small]
  show (Operation.ofCount (heap.length a) >>= fun n => pure (Value.number n)) = _
  rw [counted]
  rfl

/-! ## Calls -/

/-- The world in which a builtin runs: its call is in the log. -/
def noted (b : Builtin) (args : List Value) (w : World Sink) : World Sink :=
  { w with log := w.log.add (.nativeCall b.name args.length) }

/-- **Success of a call** with the right number of arguments is one of the builtin. -/
theorem call_eq_ok_iff {b : Builtin} {args : List Value} (fits : b.arity.admits args.length)
    {w w' : World Sink} {reply : Reply} :
    call b.name args w = .ok reply w' ↔
      ∃ result, run b args (noted b args w) = .ok result w' ∧ reply = .ofResult result := by
  have named : Builtin.ofName? b.name = some b := by
    cases b <;> rfl
  simp only [call, named, fits, if_true]
  change EStateM.bind (run b args) _ (noted b args w) = _ ↔ _
  unfold EStateM.bind
  cases run b args (noted b args w) with
  | error fault w₁ => simp
  | ok result w₁ =>
    constructor
    · rintro ⟨⟩
      exact ⟨result, rfl, rfl⟩
    · rintro ⟨_, ⟨⟩, rfl⟩
      rfl

/-- A check that is followed by something else succeeds if both do. -/
theorem check_heap_bind_eq_ok_iff {α β : Type} {f : Heap → Except Fault α} {k : α → Action β}
    {w w' : World Sink} {b : β} :
    (do k (← check (f (← Standard.heap))) : Action β) w = .ok b w' ↔
      ∃ c, f w.heap = .ok c ∧ k c w = .ok b w' := by
  rw [check_heap_bind]
  cases f w.heap <;> simp

/-- **What reading does.** -/
theorem call_arrayGet_iff {w w' : World Sink} (small : w.heap.length a ≤ Number.maxExact)
    {reply : Reply} :
    call "array_get" [.array a, x] w = .ok reply w' ↔
      ∃ i < w.heap.length a, x.Names i ∧ ∃ item, w.heap.get? a i = some item ∧
        reply = .returned item ∧ w' = noted .arrayGet [.array a, x] w := by
  rw [show "array_get" = Builtin.arrayGet.name from rfl, call_eq_ok_iff rfl]
  simp only [run, check_heap_bind_eq_ok_iff]
  constructor
  · rintro ⟨_, ⟨item, read, ⟨⟩⟩, rfl⟩
    obtain ⟨i, inside, names, present⟩ := (arrayGet_eq_ok_iff small).mp read
    exact ⟨i, inside, names, item, present, rfl, rfl⟩
  · rintro ⟨i, inside, names, item, present, rfl, rfl⟩
    exact ⟨some item, ⟨item, (arrayGet_eq_ok_iff small).mpr ⟨i, inside, names, present⟩, rfl⟩, rfl⟩

/-- **What replacing does.** -/
theorem call_arraySet_iff {w w' : World Sink} (small : w.heap.length a ≤ Number.maxExact)
    {reply : Reply} :
    call "array_set" [.array a, x, v] w = .ok reply w' ↔
      ∃ i < w.heap.length a, x.Names i ∧ w.heap.Takes a v ∧ reply = .finished ∧
        w' = { noted .arraySet [.array a, x, v] w with
          heap := (w.heap.setElement a v.tag).set a i v } := by
  rw [show "array_set" = Builtin.arraySet.name from rfl, call_eq_ok_iff rfl]
  simp only [run, arraySet, check_heap_bind_eq_ok_iff]
  constructor
  · rintro ⟨_, ⟨⟨b, i, u⟩, passed, ⟨⟩⟩, rfl⟩
    obtain ⟨⟨rfl, rfl⟩, inside, names, takes⟩ := (arrayTarget_eq_ok_iff small).mp passed
    exact ⟨i, inside, names, takes, rfl, rfl⟩
  · rintro ⟨i, inside, names, takes, rfl, rfl⟩
    have passed := (arrayTarget_eq_ok_iff small).mpr ⟨⟨rfl, rfl⟩, inside, names, takes⟩
    exact ⟨none, ⟨(a, i, v), passed, rfl⟩, rfl⟩

/-- **What appending does.** -/
theorem call_arrayAdd_iff {w w' : World Sink} {reply : Reply} :
    call "array_add" [.array a, v] w = .ok reply w' ↔
      w.heap.Takes a v ∧ reply = .finished ∧
        w' = { noted .arrayAdd [.array a, v] w with
          heap := (w.heap.setElement a v.tag).push a v } := by
  rw [show "array_add" = Builtin.arrayAdd.name from rfl, call_eq_ok_iff rfl]
  simp only [run, arrayAdd, check_heap_bind_eq_ok_iff]
  constructor
  · rintro ⟨_, ⟨⟨b, u⟩, passed, ⟨⟩⟩, rfl⟩
    obtain ⟨⟨rfl, rfl⟩, takes⟩ := arrayAddition_eq_ok_iff.mp passed
    exact ⟨takes, rfl, rfl⟩
  · rintro ⟨takes, rfl, rfl⟩
    exact ⟨none, ⟨(a, v), arrayAddition_eq_ok_iff.mpr ⟨⟨rfl, rfl⟩, takes⟩, rfl⟩, rfl⟩

/-- **What asking for the length does.** -/
theorem call_arrayLen {w : World Sink} (small : w.heap.length a ≤ Number.maxExact) :
    call "array_len" [.array a] w =
      .ok (.returned (.number (Number.ofMagnitude false (w.heap.length a))))
        (noted .arrayLen [.array a] w) := by
  rw [show "array_len" = Builtin.arrayLen.name from rfl, call_eq_ok_iff rfl]
  simp only [run, check_heap_bind_eq_ok_iff]
  exact ⟨_, ⟨_, arrayLen_eq small, rfl⟩, rfl⟩

/-- A value names one place at most. -/
theorem names_unique {i j : Nat} (h : x.Names i) (h' : x.Names j) : i = j := by
  obtain ⟨y, rfl, value⟩ := h
  obtain ⟨_, ⟨⟩, value'⟩ := h'
  rw [value, Option.some.injEq] at value'
  exact_mod_cast value'

/-! ## The laws -/

/-- **Success**: the call has a reply. -/
def Succeeds (name : String) (args : List Value) (site : Site) (w : World Sink) : Prop :=
  ∃ reply w', host.call name args site w = .ok reply w'

/-- **Laws of the array builtins** for the array `a` in the world `w` and two values. -/
structure ArrayLaws (w : World Sink) (a : Handle) (x v : Value) (site : Site) : Prop where
  /-- Reading succeeds for a number that is equal to a place. -/
  get_iff : Succeeds "array_get" [.array a, x] site w ↔ ∃ i < w.heap.length a, x.Names i
  /-- It gives the element at that place and changes nothing. -/
  get : ∀ i reply w', x.Names i → host.call "array_get" [.array a, x] site w = .ok reply w' →
    ∃ item, w.heap.get? a i = some item ∧ reply = .returned item ∧
      w'.heap = w.heap ∧ w'.host = w.host
  /-- Replacing succeeds for a number that is equal to a place and a value that the array
  takes. -/
  set_iff : Succeeds "array_set" [.array a, x, v] site w ↔
    (∃ i < w.heap.length a, x.Names i) ∧ w.heap.Takes a v
  /-- It has no result and replaces the element at that place. -/
  set : ∀ i reply w', x.Names i → host.call "array_set" [.array a, x, v] site w = .ok reply w' →
    reply = .finished ∧ w.heap.Replaced w'.heap a i v ∧ w'.host = w.host
  /-- Appending succeeds for a value that the array takes. -/
  add_iff : Succeeds "array_add" [.array a, v] site w ↔ w.heap.Takes a v
  /-- It has no result and appends the value. -/
  add : ∀ reply w', host.call "array_add" [.array a, v] site w = .ok reply w' →
    reply = .finished ∧ w.heap.Appended w'.heap a v ∧ w'.host = w.host
  /-- The length is a number that is equal to it. -/
  len : ∃ y w', host.call "array_len" [.array a] site w = .ok (.returned (.number y)) w' ∧
    Number.value? y = some ↑(w.heap.length a) ∧ w'.heap = w.heap ∧ w'.host = w.host

/-- **The array builtins satisfy the laws of growable, shared arrays.** -/
theorem array_laws {w : World Sink} {a : Handle} (inside : a.slot < w.heap.size)
    (small : w.heap.length a ≤ Number.maxExact) (x v : Value) (site : Site) :
    ArrayLaws w a x v site where
  get_iff := by
    constructor
    · rintro ⟨reply, w', answered⟩
      obtain ⟨i, place, names, -⟩ := (call_arrayGet_iff small).mp answered
      exact ⟨i, place, names⟩
    · rintro ⟨i, place, names⟩
      obtain ⟨item, present⟩ := Heap.exists_get? place
      exact ⟨_, _, (call_arrayGet_iff small).mpr ⟨i, place, names, item, present, rfl, rfl⟩⟩
  get := by
    intro i reply w' names answered
    obtain ⟨j, -, names', item, present, rfl, rfl⟩ := (call_arrayGet_iff small).mp answered
    obtain rfl := names_unique names names'
    exact ⟨item, present, rfl, rfl, rfl⟩
  set_iff := by
    constructor
    · rintro ⟨reply, w', answered⟩
      obtain ⟨i, place, names, takes, -⟩ := (call_arraySet_iff small).mp answered
      exact ⟨⟨i, place, names⟩, takes⟩
    · rintro ⟨⟨i, place, names⟩, takes⟩
      exact ⟨_, _, (call_arraySet_iff small).mpr ⟨i, place, names, takes, rfl, rfl⟩⟩
  set := by
    intro i reply w' names answered
    obtain ⟨j, place, names', -, rfl, rfl⟩ := (call_arraySet_iff small).mp answered
    obtain rfl := names_unique names names'
    exact ⟨rfl, Heap.replaced_set v place, rfl⟩
  add_iff := by
    constructor
    · rintro ⟨reply, w', answered⟩
      exact (call_arrayAdd_iff.mp answered).1
    · intro takes
      exact ⟨_, _, call_arrayAdd_iff.mpr ⟨takes, rfl, rfl⟩⟩
  add := by
    intro reply w' answered
    obtain ⟨-, rfl, rfl⟩ := call_arrayAdd_iff.mp answered
    exact ⟨rfl, Heap.appended_push v inside, rfl⟩
  len := ⟨_, _, call_arrayLen small, Number.value?_ofMagnitude small, rfl, rfl⟩

/-- The second text of a pair is replaced. -/
theorem array_laws_pair :
    let w : World Sink := ⟨⟨#[⟨#[.text "a", .text "b"], .text⟩]⟩, .ofLimit none, .silent⟩
    let x : Value := .number (Number.ofMagnitude false 1)
    ArrayLaws w ⟨0⟩ x (.text "c") .unknown ∧
      Succeeds "array_set" [.array ⟨0⟩, x, .text "c"] .unknown w := by
  intro w x
  have laws : ArrayLaws w ⟨0⟩ x (.text "c") .unknown := array_laws (by decide) (by decide) _ _ _
  have second : x.Names 1 := ⟨_, rfl, Number.value?_ofMagnitude (by decide)⟩
  exact ⟨laws, laws.set_iff.mpr ⟨⟨1, by decide, second⟩, by decide, .inr rfl⟩⟩

/-- **What was stored is read back** through every handle of the storage, at every number that is
equal to the place. -/
theorem arrayGet_of_arraySet {w w' : World Sink} {b : Handle} {y : Value} {i : Nat} {reply : Reply}
    (small : w.heap.length a ≤ Number.maxExact) (names : x.Names i) (again : y.Names i)
    (stored : call "array_set" [.array a, x, v] w = .ok reply w') (shared : b.slot = a.slot) :
    call "array_get" [.array b, y] w' = .ok (.returned v) (noted .arrayGet [.array b, y] w') := by
  obtain rfl := Heap.eq_of_slot_eq shared
  obtain ⟨j, place, names', -, -, rfl⟩ := (call_arraySet_iff small).mp stored
  obtain rfl := names_unique names names'
  have after := Heap.replaced_set v place
  apply (call_arrayGet_iff _).mpr
  · exact ⟨i, Nat.lt_of_lt_of_eq place after.length.symm, again, v, after.item b rfl, rfl, rfl⟩
  · exact Nat.le_trans (Nat.le_of_eq after.length) small

end Standard

end Scriptlet
