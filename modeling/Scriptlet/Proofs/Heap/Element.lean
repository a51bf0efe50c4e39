import Scriptlet.Proofs.Heap.Lifetime

/-!
# Elements and element types

An array has one element type, but a literal only looks at its first element for it.  Whatever
is stored later is checked.  So an element of another type is one that the literal put there.

## Main definitions

* `Heap.Stray` — an element that is not of the element type of its array
* `Moment.Strews` — an array literal that creates such an element

## Main statements

* `Change.stray` — only array literals create stray elements
* `Moment.Reaches.stray`, `Moment.Reaches.exists_strews` — the same for any number of changes
* `Machine.stray_executeWatched` — stray elements at the moments of sequences of programs

## Design decisions

* Stray elements are followed one by one and not array by array.  An array loses them one at a
  time, when they are replaced, and gets no new ones.
* An array that adopts a type is empty, by `Heap.Settled`.  So nothing in it becomes stray.
-/

namespace Scriptlet

namespace Heap

/-- **Stray element.**  The array has the element at that place, and it is not of the element
type of the array. -/
def Stray (heap : Heap) (a : Handle) (i : Nat) (v : Value) : Prop :=
  heap.get? a i = some v ∧ v.tag ≠ heap.element a

variable {heap : Heap} {a b : Handle} {i : Nat} {v : Value}

theorem not_stray_empty : ¬ empty.Stray a i v := by
  rintro ⟨found, -⟩
  have nothing : empty.get? a i = none := rfl
  rw [nothing] at found
  cases found

/-- **A new array** has a stray element if the values behind the first one are not all of its
type. -/
theorem Stray.of_ofElements {items : List Value}
    (h : (heap.ofElements items.toArray).2.Stray a i v) :
    heap.Stray a i v ∨ a = (heap.ofElements items.toArray).1 ∧ items[i]? = some v ∧
      ∃ first, items.head? = some first ∧ v.tag ≠ first.tag := by
  obtain ⟨found, wrong⟩ := h
  rw [ofElements, get?, cell_alloc] at found
  rw [ofElements, element, cell_alloc] at wrong
  split at found
  · next new =>
    rw [if_pos new] at wrong
    right
    cases items with
    | nil => simp at found
    | cons first rest =>
      exact ⟨new, by simpa using found, first, rfl, by simpa [elementOf] using wrong⟩
  · next old =>
    rw [if_neg old] at wrong
    exact .inl ⟨found, wrong⟩

/-- **Changing a cell** leaves no new stray element if it leaves none in the cell. -/
theorem Stray.of_modify {f : Cell → Cell} (h : (heap.modify b f).Stray a i v)
    (kept : ∀ j w, (f (heap.cell b)).items[j]? = some w → w.tag ≠ (f (heap.cell b)).element →
      heap.Stray b j w) : heap.Stray a i v := by
  obtain ⟨found, wrong⟩ := h
  rw [get?, cell_modify] at found
  rw [element, cell_modify] at wrong
  split at found
  · next here =>
    rw [if_pos here] at wrong
    obtain ⟨rfl, -⟩ := here
    exact kept i v found wrong
  · next elsewhere =>
    rw [if_neg elsewhere] at wrong
    exact ⟨found, wrong⟩

theorem Stray.of_setElement {type : DataType} (h : (heap.setElement b type).Stray a i v)
    (settled : heap.Settled) (fits : heap.element b = .unknown ∨ heap.element b = type) :
    heap.Stray a i v := by
  refine h.of_modify fun j w found wrong => ?_
  rcases fits with unknown | same
  · have inside : j < heap.length b := (Array.getElem?_eq_some_iff.mp found).1
    rw [settled b unknown] at inside
    exact absurd inside (Nat.not_lt_zero j)
  · exact ⟨found, by rwa [same]⟩

theorem Stray.of_set {j : Nat} {w : Value} (h : (heap.set b j w).Stray a i v)
    (fits : heap.element b = w.tag) : heap.Stray a i v := by
  refine h.of_modify fun k u found wrong => ?_
  rw [Array.getElem?_setIfInBounds] at found
  split at found
  · -- What was stored is of the element type.
    split at found
    · cases found
      exact absurd fits.symm wrong
    · cases found
  · exact ⟨found, wrong⟩

theorem Stray.of_push {w : Value} (h : (heap.push b w).Stray a i v)
    (fits : heap.element b = w.tag) : heap.Stray a i v := by
  refine h.of_modify fun k u found wrong => ?_
  rw [Array.getElem?_push] at found
  split at found
  · cases found
    exact absurd fits.symm wrong
  · exact ⟨found, wrong⟩

theorem Stray.of_adopt {w : Value} {spec : TypeSpec} (h : (heap.adopt w spec).Stray a i v)
    (settled : heap.Settled) : heap.Stray a i v := by
  cases w with
  | array b =>
    rw [adopt] at h
    split at h
    · next unknown => exact h.of_setElement settled (.inl unknown)
    · exact h
  | number x | text s | boolean b | void => exact h

theorem Stray.of_adoptHeld {held w : Value} (h : (Eval.adoptHeld held w heap).Stray a i v)
    (settled : heap.Settled) : heap.Stray a i v := by
  cases held with
  | array b => exact h.of_adopt settled
  | number x | text s | boolean b | void => exact h

end Heap

/-! ## Changes -/

/-- **Strewing.**  An array literal whose elements have the given values creates the array `a`
with the stray element `v` at the place `i`. -/
structure Moment.Strews (p : Moment) (items : List Value) (a : Handle) (i : Nat) (v : Value) :
    Prop where
  /-- The array is the new one. -/
  new : a = (p.heap.ofElements items.toArray).1
  /-- The value stands at that place. -/
  found : items[i]? = some v
  /-- It is of another type than the first one. -/
  wrong : ∃ first, items.head? = some first ∧ v.tag ≠ first.tag

/-- The moment behind an array literal whose elements have the given values. -/
def Moment.create (p : Moment) (items : List Value) : Moment :=
  { p with heap := (p.heap.ofElements items.toArray).2 }

variable {p q : Moment} {a : Handle} {i : Nat} {v : Value}

/-- **Only array literals create stray elements.** -/
theorem Change.stray (settled : p.heap.Settled) (h : Change p q) (stray : q.heap.Stray a i v) :
    p.heap.Stray a i v ∨ ∃ items, q = p.create items ∧ p.Strews items a i v := by
  cases h with
  | @create items held =>
    rcases stray.of_ofElements with old | ⟨new, found, wrong⟩
    · exact .inl old
    · exact .inr ⟨items, rfl, new, found, wrong⟩
  | adopt | declare => exact .inl (stray.of_adopt settled)
  | reassign => exact .inl (stray.of_adoptHeld settled)
  | @setItem b j w _ _ place fits =>
    have inside := Heap.slot_lt_of_lt_length place
    have set := stray.of_set (Heap.element_setElement_self _ _ inside)
    exact .inl (set.of_setElement settled fits)
  | @addItem b w _ _ inside fits =>
    have pushed := stray.of_push (Heap.element_setElement_self _ _ inside)
    exact .inl (pushed.of_setElement settled fits)
  | define | enter | leave => exact .inl stray

namespace Moment.Reaches

/-- **An array gets no stray elements** once it is there. -/
theorem stray (h : p.Reaches q) (settled : p.heap.Settled) (inside : a.slot < p.heap.size)
    (found : q.heap.Stray a i v) : p.heap.Stray a i v := by
  induction h with
  | refl => exact found
  | @tail p' q reached change ih =>
    have before : p.Reaches p' := reached
    rcases change.stray (before.settled settled) found with old | ⟨items, -, strews⟩
    · exact ih old
    · -- A new array is not one of those that were there.
      have new : a.slot = p'.heap.size := congrArg Handle.slot strews.new
      have grown := before.grows.size_le
      omega

/-- **A stray element comes from an array literal.** -/
theorem exists_strews (h : p.Reaches q) (settled : p.heap.Settled) (found : q.heap.Stray a i v) :
    p.heap.Stray a i v ∨
      ∃ p' items, p.Reaches p' ∧ p'.Strews items a i v ∧ (p'.create items).Reaches q := by
  induction h with
  | refl => exact .inl found
  | @tail p' q reached change ih =>
    have before : p.Reaches p' := reached
    rcases change.stray (before.settled settled) found with old | ⟨items, rfl, strews⟩
    · rcases ih old with start | ⟨p₀, items, first, strews, rest⟩
      · exact .inl start
      · exact .inr ⟨p₀, items, first, strews, rest.tail change⟩
    · exact .inr ⟨p', items, before, strews, .refl⟩

end Moment.Reaches

/-! ## Variables that hold arrays -/

namespace Standard

theorem arrayGet_eq_ok {heap : Heap} {v x w : Value} (h : arrayGet heap [v, x] = .ok w) :
    ∃ b j, v = .array b ∧ heap.get? b j = some w := by
  unfold arrayGet at h
  obtain ⟨b, array, h⟩ := ok_of_check_bind h
  obtain ⟨y, -, h⟩ := ok_of_check_bind h
  obtain ⟨j, -, h⟩ := ok_of_check_bind h
  refine ⟨b, j, array_ok array, ?_⟩
  cases found : heap.get? b j with
  | none => simp [found] at h
  | some u =>
    simp only [found, Option.elim_some, Except.ok.injEq] at h
    rw [h]

end Standard

/-- A value that conforms to arrays of a type is such an array, or one of a type that is not
known. -/
theorem Heap.element_of_conforms {heap : Heap} {b : Handle} {type : DataType}
    (conforms : heap.conforms (.array b) (.arrayOf type) = true)
    (known : heap.typeOf (.array b) ≠ .arrayOf .unknown) : heap.element b = type := by
  have unknown : heap.element b ≠ .unknown := fun same => known (by rw [typeOf, same])
  simp only [Heap.conforms, typeOf, TypeSpec.conformsTo, TypeSpec.arrayOf] at conforms
  split at conforms
  · cases conforms
  · simpa [unknown] using conforms

/-- **Elements of a variable.**  What an array gives that is bound to a name declared as arrays
of a type is of that type, or it is stray. -/
def Frame.Elements (heap : Heap) (types : Bindings TypeSpec) (f : Frame) : Prop :=
  ∀ name type v x w, types.find? name = some (.arrayOf type) → f.vars.find? name = some v →
    Standard.arrayGet heap [v, x] = .ok w →
      w.tag = type ∨ ∃ b j, v = .array b ∧ heap.Stray b j w

theorem Frame.Typed.elements {heap : Heap} {types : Bindings TypeSpec} {f : Frame}
    (h : f.Typed heap types) : f.Elements heap types := by
  intro name type v x w declared bound got
  obtain ⟨spec, same, conforms, known⟩ := h name v bound
  obtain rfl : spec = .arrayOf type := Option.some.inj (same.symm.trans declared)
  obtain ⟨b, j, rfl, found⟩ := Standard.arrayGet_eq_ok got
  have element := Heap.element_of_conforms conforms known
  by_cases right : w.tag = type
  · exact .inl right
  · exact .inr ⟨b, j, rfl, found, by rwa [element]⟩

/-! ## All moments -/

/-- **Only array literals store elements of another type.**  Any programs are executed one after
the other in one scope, each with its own settings and fuel, and each may fail.  An element that
is not of the element type of its array was in its place at all earlier moments at which the
array was there, and it comes from the array literal that has created the array, whose first
element was of another type.  So an array stores elements of its element type only, from the
first moment on at which it does, and then a variable that was declared as arrays of a type
gives values of that type.  The watch that tells the moments changes nothing of the run. -/
theorem Machine.stray_executeWatched (sink : Sink) (log : Log) (runs : List Run) :
    ((startWatched sink log).executeWatched Standard.host runs).forget =
        (Machine.start sink log).execute Standard.host runs ∧
      (((startWatched sink log).executeWatched Standard.host runs).moments.Pairwise
        fun q p => ∀ a i v, a.slot < p.heap.size → q.heap.Stray a i v → p.heap.Stray a i v) ∧
      ∀ q ∈ ((startWatched sink log).executeWatched Standard.host runs).moments,
        (∀ a i v, q.heap.Stray a i v → ∃ p items, (startWatched sink log).now.Reaches p ∧
          p.Strews items a i v ∧ (p.create items).Reaches q) ∧
        List.Forall₂ (Frame.Elements q.heap) q.types q.scope := by
  refine ⟨forget_executeWatched Standard.host _ runs, ?_, ?_⟩
  · refine (pairwise_reaches sink log runs).imp_of_mem fun _ mem reaches a i v inside found => ?_
    have settled := (reaches_moments sink log runs mem).settled Heap.settled_empty
    exact reaches.stray settled inside found
  · intro q mem
    have reached := reaches_moments sink log runs mem
    constructor
    · intro a i v found
      rcases reached.exists_strews Heap.settled_empty found with start | strewn
      · -- There are no arrays at the start.
        exact absurd start Heap.not_stray_empty
      · exact strewn
    · have typed := reached.typed (valid_startWatched sink log) (typed_startWatched sink log)
      exact typed.scope.imp fun _ _ fits => fits.elements

/-- The statement `bool[] a = [true, "no"];` leaves a text in an array of truth values. -/
theorem Machine.stray_of_mixed_literal :
    let site : Site := ⟨"t", 1, 1⟩
    let elements : List Expr := [.literal (.boolean true) site, .literal (.text "no") site]
    let program : Block := ⟨[.declare ⟨.bool, true⟩ "a" site (.array elements site) site], site⟩
    let m := (startWatched (.ofLimit none) .silent).executeWatched Standard.host [⟨{}, 9, program⟩]
    m.scope.find? "a" = some (.array ⟨0⟩) ∧ m.world.host.types = [[("a", .arrayOf .boolean)]] ∧
      m.world.heap.Stray ⟨0⟩ 1 (.text "no") := by
  unfold Heap.Stray
  decide +kernel

end Scriptlet
