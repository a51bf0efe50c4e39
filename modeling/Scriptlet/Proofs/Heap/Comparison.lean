import Mathlib.Data.Set.Card
import Scriptlet.Proofs.Heap.Acyclic
import Scriptlet.Proofs.Heap.Growth

/-!
# Comparison of arrays

A comparison of arrays stops where it meets one array on both sides.  It would find equal elements
there, except that not-a-number differs from itself: an array that holds it, at whatever depth, is
equal to itself although one of its elements is not.  That is all the difference between the
comparison and one that looks at the elements only.

## Main definitions

* `Heap.Alike` — values compared by their structure alone
* `Heap.Paired` — what a comparison element by element comes across
* `Heap.HoldsNaN` — an array with not-a-number in it, at any depth

## Main statements

* `Heap.Sound.grounded` — heaps without cycles are grounded, in whatever order they were made
* `Heap.alike_self_iff` — an array is alike to itself unless it holds not-a-number
* `Heap.alike_iff` — what is equal is alike, unless one array with not-a-number was met on both
  sides

## Design decisions

* `Alike` is inductive, so it says nothing about how deep arrays are nested, and it does not ask
  which arrays share their storage or what element types they have.
* A heap without cycles bounds its depth by itself: an array reaches fewer arrays than those it is
  stored in.
-/

namespace Scriptlet

namespace Heap

variable {heap : Heap}

/-! ## Heaps without cycles -/

/-- **Rank** of an array: how many arrays are reached from it. -/
noncomputable def rank (heap : Heap) (a : Handle) : ℕ :=
  {b | Relation.TransGen heap.Stores a b}.ncard

/-- The handles of a heap with `n` arrays. -/
def handles (n : ℕ) : Finset Handle := (Finset.range n).image Handle.mk

theorem mem_handles {n : ℕ} {a : Handle} : a ∈ handles n ↔ a.slot < n := by
  obtain ⟨slot⟩ := a
  simp [handles]

theorem ncard_handles (n : ℕ) : (handles n : Set Handle).ncard = n := by
  rw [Set.ncard_coe_finset, handles, Finset.card_image_of_injective _ fun _ _ => Handle.mk.inj,
    Finset.card_range]

namespace Sound

theorem reached_subset (sound : heap.Sound) (a : Handle) :
    {b | Relation.TransGen heap.Stores a b} ⊆ (handles heap.size : Set Handle) := by
  intro b path
  refine mem_handles.mpr ?_
  cases path with
  | single stores | tail _ stores => exact sound _ _ stores b rfl

variable (sound : heap.Sound) (acyclic : ∀ a, ¬ Relation.TransGen heap.Stores a a)

include sound acyclic

/-- An array has a greater rank than those that it stores. -/
theorem rank_lt {a b : Handle} (stores : heap.Stores a b) : heap.rank b < heap.rank a := by
  refine Set.ncard_lt_ncard ?_ ((Finset.finite_toSet _).subset (sound.reached_subset a))
  exact ⟨fun c path => .head stores path, fun all => acyclic b (all (.single stores))⟩

theorem rank_lt_size {a : Handle} (inside : a.slot < heap.size) : heap.rank a < heap.size := by
  conv_rhs => rw [← ncard_handles heap.size]
  refine Set.ncard_lt_ncard ?_ (Finset.finite_toSet _)
  exact ⟨sound.reached_subset a, fun all => acyclic a (all (mem_handles.mpr inside))⟩

/-- **A heap without cycles is grounded**, in whatever order its arrays were made and filled. -/
theorem grounded : heap.Grounded :=
  grounded_of_rank (fun _ _ => rank_lt sound acyclic) fun _ => rank_lt_size sound acyclic

end Sound

/-! ## Comparison by structure -/

/-- **Alike.**  Numbers compare as doubles do; texts and truth values are alike if they are the
same, and so are two missing values.  Arrays are alike if they are equally long and their elements
are alike, place by place. -/
inductive Alike (heap : Heap) : Value → Value → Prop where
  /-- Numbers that are equal as doubles. -/
  | number {x y : Number} : (x == y) = true → Alike heap (.number x) (.number y)
  /-- A text. -/
  | text {s : String} : Alike heap (.text s) (.text s)
  /-- A truth value. -/
  | boolean {b : Bool} : Alike heap (.boolean b) (.boolean b)
  /-- No value. -/
  | void : Alike heap .void .void
  /-- Arrays with elements that are alike. -/
  | array {a b : Handle} : heap.length a = heap.length b →
    (∀ i v w, heap.get? a i = some v → heap.get? b i = some w → Alike heap v w) →
    Alike heap (.array a) (.array b)

/-- **Paired.**  A comparison element by element of `v` and `w` comes across this pair. -/
inductive Paired (heap : Heap) (v w : Value) : Value → Value → Prop where
  /-- The values themselves. -/
  | root : Paired heap v w v w
  /-- The elements at one place of two arrays that it has come across. -/
  | item {a b : Handle} {i : ℕ} {v' w' : Value} : Paired heap v w (.array a) (.array b) →
    heap.get? a i = some v' → heap.get? b i = some w' → Paired heap v w v' w'

/-- What is come across inside of an element is come across inside of the array. -/
theorem Paired.inside {a b : Handle} {i : ℕ} {v w v' w' : Value} (h : heap.Paired v w v' w')
    (left : heap.get? a i = some v) (right : heap.get? b i = some w) :
    heap.Paired (.array a) (.array b) v' w' := by
  induction h with
  | root => exact .item .root left right
  | item _ left' right' ih => exact .item ih left' right'

/-- **Holding not-a-number**, at any depth. -/
def HoldsNaN (heap : Heap) (a : Handle) : Prop :=
  ∃ b x, Relation.ReflTransGen heap.Stores a b ∧ .number x ∈ (heap.cell b).items ∧
    (x == x) = false

theorem mem_items_iff {a : Handle} {v : Value} :
    v ∈ (heap.cell a).items ↔ ∃ i, heap.get? a i = some v :=
  Array.mem_iff_getElem?

namespace Alike

/-- A value that is alike to another one is so in all its parts. -/
theorem paired {v w v' w' : Value} (h : heap.Alike v w) (pair : heap.Paired v w v' w') :
    heap.Alike v' w' := by
  induction pair with
  | root => exact h
  | item _ left right ih =>
    cases ih with
    | array _ items => exact items _ _ _ left right

theorem stored {a b : Handle} (h : heap.Alike (.array a) (.array a))
    (path : Relation.ReflTransGen heap.Stores a b) : heap.Alike (.array b) (.array b) := by
  induction path with
  | refl => exact h
  | tail _ stores ih =>
    obtain ⟨i, place⟩ := mem_items_iff.mp stores
    cases ih with
    | array _ items => exact items i _ _ place place

end Alike

/-- **An array is alike to itself** unless it holds not-a-number. -/
theorem alike_self_iff (grounded : heap.Grounded) (a : Handle) :
    heap.Alike (.array a) (.array a) ↔ ¬ heap.HoldsNaN a := by
  constructor
  · rintro h ⟨b, x, path, mem, differs⟩
    obtain ⟨i, place⟩ := mem_items_iff.mp mem
    cases h.stored path with
    | array _ items =>
      cases items i _ _ place place with
      | number same => exact absurd same (by simp [differs])
  · intro none
    induction a using grounded.wellFounded.induction with
    | h a ih =>
      refine .array rfl fun i v w left right => ?_
      obtain rfl : v = w := Option.some_inj.mp (left.symm.trans right)
      have mem := mem_items_iff.mpr ⟨i, left⟩
      cases v with
      | number x =>
        refine .number (Bool.of_not_eq_false fun differs => ?_)
        exact none ⟨a, x, .refl, mem, differs⟩
      | text s => exact .text
      | boolean b => exact .boolean
      | void => exact .void
      | array b =>
        refine ih b mem ?_
        rintro ⟨c, x, path, found, differs⟩
        exact none ⟨c, x, .head mem path, found, differs⟩

/-! ## Comparison with its shortcut -/

/-- Arrays are equal if they are one array, or equally long with equal elements. -/
theorem equal_array_iff (grounded : heap.Grounded) {a b : Handle} (inside : a.slot < heap.size) :
    heap.equal (.array a) (.array b) = true ↔ a = b ∨ (heap.length a = heap.length b ∧
      ∀ i v w, heap.get? a i = some v → heap.get? b i = some w → heap.equal v w = true) := by
  rw [grounded.equal_array a b inside]
  simp only [Bool.or_eq_true, Bool.and_eq_true, beq_iff_eq, List.all_eq_true]
  refine or_congr_right (and_congr_right fun _ => ?_)
  constructor
  · intro h i v w left right
    have place : ((heap.cell a).items.toList.zip (heap.cell b).items.toList)[i]? = some (v, w) :=
      List.getElem?_zip_eq_some.mpr
        ⟨Array.getElem?_toList.trans left, Array.getElem?_toList.trans right⟩
    exact h _ (List.mem_of_getElem? place)
  · rintro h ⟨v, w⟩ mem
    obtain ⟨i, place⟩ := List.mem_iff_getElem?.mp mem
    obtain ⟨left, right⟩ := List.getElem?_zip_eq_some.mp place
    rw [Array.getElem?_toList] at left right
    exact h i v w left right

/-- What is alike is equal. -/
theorem Alike.equal (grounded : heap.Grounded) (sound : heap.Sound) {v w : Value}
    (h : heap.Alike v w) (held : heap.Holds v) : heap.equal v w = true := by
  induction h with
  | number same => simpa only [Heap.equal, equalWithin] using same
  | text | boolean => simp only [Heap.equal, equalWithin, beq_self_eq_true]
  | void => simp only [Heap.equal, equalWithin]
  | @array a b length _ ih =>
    refine (equal_array_iff grounded (held a rfl)).mpr (.inr ⟨length, fun i v w left right => ?_⟩)
    exact ih i v w left right (sound a v (mem_items_iff.mpr ⟨i, left⟩))

/-- Values that are equal are alike, if they are so when they are arrays. -/
theorem alike_of_equal {v w : Value} (h : heap.equal v w = true)
    (arrays : ∀ a b, v = .array a → w = .array b → heap.Alike v w) : heap.Alike v w := by
  cases v with
  | number x =>
    cases w with
    | number y => exact .number (by simpa only [Heap.equal, equalWithin] using h)
    | text t | boolean c | array b | void => simp [Heap.equal, equalWithin] at h
  | text s =>
    cases w with
    | text t =>
      obtain rfl : s = t := by simpa [Heap.equal, equalWithin] using h
      exact .text
    | number y | boolean c | array b | void => simp [Heap.equal, equalWithin] at h
  | boolean b =>
    cases w with
    | boolean c =>
      obtain rfl : b = c := by simpa [Heap.equal, equalWithin] using h
      exact .boolean
    | number y | text t | array a | void => simp [Heap.equal, equalWithin] at h
  | void =>
    cases w with
    | void => exact .void
    | number y | text t | boolean c | array b => simp [Heap.equal, equalWithin] at h
  | array a =>
    cases w with
    | array b => exact arrays a b rfl rfl
    | number y | text t | boolean c | void => simp [Heap.equal, equalWithin] at h

/-- Arrays that are equal are alike, if none with not-a-number is met on both sides. -/
theorem alike_array_of_equal (grounded : heap.Grounded) (sound : heap.Sound) {a b : Handle}
    (inside : a.slot < heap.size) (h : heap.equal (.array a) (.array b) = true)
    (harmless : ∀ c, heap.Paired (.array a) (.array b) (.array c) (.array c) →
      ¬ heap.HoldsNaN c) : heap.Alike (.array a) (.array b) := by
  -- Arrays inside of arrays come to an end; what they meet was met from outside as well.
  induction a using grounded.wellFounded.induction generalizing b with
  | h a ih =>
    rcases (equal_array_iff grounded inside).mp h with rfl | ⟨length, items⟩
    · exact (alike_self_iff grounded a).mpr (harmless a .root)
    · refine .array length fun i v w left right => ?_
      have equal := items i v w left right
      have mem := mem_items_iff.mpr ⟨i, left⟩
      refine alike_of_equal equal ?_
      rintro c d rfl rfl
      exact ih c mem (sound a _ mem c rfl) equal fun e pair => harmless e (pair.inside left right)

/-- **Equality of values and their structure.**  In a heap without cycles, values are alike
exactly if they are equal and the comparison of their elements comes across no array with
not-a-number on both sides at once.  So the two agree where no such array is shared. -/
theorem alike_iff (sound : heap.Sound) (acyclic : ∀ a, ¬ Relation.TransGen heap.Stores a a)
    {v w : Value} (held : heap.Holds v) :
    heap.Alike v w ↔ heap.equal v w = true ∧
      ∀ a, heap.Paired v w (.array a) (.array a) → ¬ heap.HoldsNaN a := by
  have grounded := sound.grounded acyclic
  constructor
  · exact fun h =>
      ⟨h.equal grounded sound held, fun a pair => (alike_self_iff grounded a).mp (h.paired pair)⟩
  · rintro ⟨equal, harmless⟩
    refine alike_of_equal equal ?_
    rintro a b rfl rfl
    exact alike_array_of_equal grounded sound (held a rfl) equal harmless

/-- Two arrays that share their only element, which is an array. -/
theorem alike_iff_of_shared :
    let heap : Heap := ⟨#[⟨#[.number 1], .number⟩, ⟨#[.array ⟨0⟩], .array⟩,
      ⟨#[.array ⟨0⟩], .array⟩]⟩
    heap.equal (.array ⟨1⟩) (.array ⟨2⟩) = true ∧
      ∀ a, heap.Paired (.array ⟨1⟩) (.array ⟨2⟩) (.array a) (.array a) → ¬ heap.HoldsNaN a := by
  intro heap
  have stores {a b : Handle} (h : heap.Stores a b) : 0 < a.slot ∧ b = ⟨0⟩ := by
    obtain ⟨slot⟩ := a
    have inside : slot < 3 := slot_lt_of_mem h
    obtain rfl | rfl | rfl : slot = 0 ∨ slot = 1 ∨ slot = 2 := by omega
    · simp [Stores, cell, heap] at h
    · simpa [Stores, cell, heap] using h
    · simpa [Stores, cell, heap] using h
  have sound : heap.Sound := by
    rintro a v mem b rfl
    rw [(stores mem).2]
    decide
  have layered : heap.Layered := fun a b h => by rw [(stores h).2]; exact (stores h).1
  have one : heap.Alike (.array ⟨0⟩) (.array ⟨0⟩) := by
    refine .array rfl fun i v w left right => ?_
    obtain rfl : v = w := Option.some_inj.mp (left.symm.trans right)
    cases i with
    | zero => cases left; exact .number (by decide +kernel)
    | succ i => cases left
  have alike : heap.Alike (.array ⟨1⟩) (.array ⟨2⟩) := by
    refine .array rfl fun i v w left right => ?_
    cases i with
    | zero => cases left; cases right; exact one
    | succ i => cases left
  exact (alike_iff sound layered.grounded.acyclic (holds_array (by decide))).mp alike

/-- **An array that is equal to itself and not alike to itself**, because it holds
not-a-number. -/
theorem equal_not_alike :
    let heap : Heap := ⟨#[⟨#[.number Number.nan], .number⟩]⟩
    heap.Sound ∧ (∀ a, ¬ Relation.TransGen heap.Stores a a) ∧
      heap.equal (.array ⟨0⟩) (.array ⟨0⟩) = true ∧ ¬ heap.Alike (.array ⟨0⟩) (.array ⟨0⟩) := by
  intro heap
  have stores {a b : Handle} : ¬ heap.Stores a b := by
    intro h
    obtain ⟨slot⟩ := a
    have inside : slot < 1 := slot_lt_of_mem h
    obtain rfl : slot = 0 := by omega
    simp [Stores, cell, heap] at h
  have layered : heap.Layered := fun _ _ h => absurd h stores
  refine ⟨?_, layered.grounded.acyclic, by decide, ?_⟩
  · rintro a v mem b rfl
    exact absurd mem stores
  · intro alike
    cases alike with
    | array _ items =>
      cases items 0 _ _ rfl rfl with
      | number same => exact absurd same (by decide +kernel)

end Heap

end Scriptlet
