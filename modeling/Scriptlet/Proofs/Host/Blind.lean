import Scriptlet.Host.Standard
import Scriptlet.Proofs.State

/-!
# What builtins do not see

A builtin works on the heap.  Whatever else a world has, only printing looks at it, and only
at the sink.

## Main definitions

* `Standard.Blind` — an action that a change of the world makes no difference to
* `Standard.BesideHeap` — a change of the world that leaves the heap alone

## Main statements

* `Standard.run_blind` — builtins, provided that writing to the sink is blind to the change
-/

namespace Scriptlet

namespace Standard

variable {α β : Type}

/-- **Blindness.**  In the world changed by `g` the action does the same, and the change
is there at the end. -/
def Blind (g : World Sink → World Sink) (x : Action α) : Prop := ∀ w, x (g w) = mapState g (x w)

/-- **Beside the heap.**  A change that leaves the heap alone and does not depend on it. -/
structure BesideHeap (g : World Sink → World Sink) : Prop where
  /-- The heap stays. -/
  heap : ∀ w, (g w).heap = w.heap
  /-- The change is the same with another heap. -/
  setHeap : ∀ (w : World Sink) (heap : Heap), g { w with heap } = { g w with heap }

namespace Blind

variable {g : World Sink → World Sink}

theorem pure (a : α) : Blind g (pure a) := fun _ => rfl

theorem bind {x : Action α} {k : α → Action β} (first : Blind g x) (second : ∀ a, Blind g (k a)) :
    Blind g (x >>= k) := by
  intro w
  show EStateM.bind x k (g w) = mapState g (EStateM.bind x k w)
  unfold EStateM.bind
  rw [first w]
  cases x w with
  | ok a w' => exact second a w'
  | error e w' => rfl

theorem check (r : Except Fault α) : Blind g (check r) := by
  intro w
  cases r <;> rfl

theorem heap (h : BesideHeap g) : Blind g heap := by
  intro w
  show EStateM.Result.ok (g w).heap (g w) = .ok w.heap (g w)
  rw [h.heap]

theorem modifyHeap (h : BesideHeap g) (f : Heap → Heap) : Blind g (modifyHeap f) := by
  intro w
  show EStateM.Result.ok () { g w with heap := f (g w).heap } =
    .ok () (g { w with heap := f w.heap })
  rw [h.setHeap w (f w.heap), h.heap w]

end Blind

/-- **Builtins are blind** to a change beside the heap, if printing is blind to it. -/
theorem run_blind {g : World Sink → World Sink} (h : BesideHeap g) (b : Builtin)
    (args : List Value) (emits : b = .print → ∀ s, Blind g (emit s)) : Blind g (run b args) := by
  cases b with
  | print =>
    exact (Blind.heap h).bind fun _ => (Blind.check _).bind fun s =>
      (emits rfl (s ++ "\n")).bind fun _ => .pure none
  | arrayGet | arrayLen =>
    exact (Blind.heap h).bind fun _ => (Blind.check _).bind fun v => .pure (some v)
  | arraySet | arrayAdd =>
    exact (Blind.heap h).bind fun _ => (Blind.check _).bind fun _ =>
      (Blind.modifyHeap h _).bind fun _ => .pure none

end Standard

end Scriptlet
