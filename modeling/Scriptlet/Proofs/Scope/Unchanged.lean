import Scriptlet.Scope.Basic

/-!
# Scopes that bind the same names

## Main definitions

* `Frame.table` — the names of a frame and its functions
* `Scope.Unchanged` — two chains of frames with the same tables

## Main statements

* `Scope.unchanged_assign` — an assignment binds no name
* `Scope.Unchanged.declare`, `Scope.Unchanged.define` — what a binding does to the tables
* `Scope.Unchanged.take_append` — frames that were set aside and put back

## Design decisions

* Values of variables can change, so only their names are compared.  Functions are compared
  with their bodies.
-/

namespace Scriptlet

/-- **Table** of a frame: the names of its variables, and its functions. -/
def Frame.table (frame : Frame) : List String × Bindings Function :=
  (frame.vars.names, frame.functions)

namespace Scope

/-- **Unchanged scope.**  There are as many frames as before, each with the names of variables
and the functions that it had. -/
def Unchanged (before after : Scope) : Prop := after.map Frame.table = before.map Frame.table

variable {s s' s'' : Scope}

theorem Unchanged.refl (s : Scope) : s.Unchanged s := rfl

theorem Unchanged.trans (first : s.Unchanged s') (second : s'.Unchanged s'') : s.Unchanged s'' :=
  Eq.trans second first

theorem Unchanged.drop (h : s.Unchanged s') (k : Nat) : Unchanged (s.drop k) (s'.drop k) := by
  unfold Unchanged at h ⊢
  rw [List.map_drop, h, List.map_drop]

theorem Unchanged.functions (h : s.Unchanged s') :
    s'.map Frame.functions = s.map Frame.functions := by
  have same := congrArg (List.map Prod.snd) h
  rwa [List.map_map, List.map_map] at same

/-- The frames that were set aside stay, so only those of the rest matter. -/
theorem Unchanged.take_append {k : Nat} (h : Unchanged (s.drop k) s') :
    s.Unchanged (s.take k ++ s') := by
  unfold Unchanged at h ⊢
  rw [List.map_append, h, ← List.map_append, List.take_append_drop]

theorem Unchanged.of_append {inner : Scope} (h : Unchanged (inner ++ s) (inner ++ s')) :
    s.Unchanged s' := by
  unfold Unchanged at h ⊢
  rw [List.map_append, List.map_append] at h
  exact List.append_cancel_left h

/-- Changes of the innermost frame whose tables depend on the table of that frame. -/
theorem Unchanged.modifyHead {g g' : Frame → Frame}
    (congr : ∀ a b : Frame, b.table = a.table → (g' b).table = (g a).table)
    (h : s.Unchanged s') : Unchanged (s.modifyHead g) (s'.modifyHead g') := by
  cases s with
  | nil =>
    rw [List.map_eq_nil_iff.mp h]
    exact .refl _
  | cons frame outer =>
    obtain ⟨frame', outer', rfl, first, others⟩ := List.map_eq_cons_iff.mp h
    show (g' frame').table :: _ = (g frame).table :: _
    rw [congr frame frame' first, others]

/-- What a declaration does depends on the name only. -/
theorem Unchanged.declare (h : s.Unchanged s') (name : String) (v w : Value) :
    Unchanged (s.declare name v) (s'.declare name w) := by
  have congr : ∀ a b : Frame, b.table = a.table →
      (b.declare name w).table = (a.declare name v).table := by
    intro a b same
    obtain ⟨names, functions⟩ := Prod.mk.inj same
    simp only [Frame.table, Frame.declare, Bindings.names_insert, names, functions]
  have changed := h.modifyHead congr
  cases s <;> cases s' <;> exact changed

theorem Unchanged.define (h : s.Unchanged s') (g : Function) :
    Unchanged (s.define g) (s'.define g) := by
  have congr : ∀ a b : Frame, b.table = a.table → (b.define g).table = (a.define g).table := by
    intro a b same
    obtain ⟨names, functions⟩ := Prod.mk.inj same
    simp only [Frame.table, Frame.define, names, functions]
  have changed := h.modifyHead congr
  cases s <;> cases s' <;> exact changed

theorem functions_declare (name : String) (v : Value) (scope : Scope) :
    (declare name v scope).map Frame.functions = scope.map Frame.functions := by
  cases scope <;> rfl

/-- An assignment only reaches names that are bound. -/
theorem unchanged_assign {name : String} {v : Value} (h : s.assign? name v = some s') :
    s.Unchanged s' := by
  induction s generalizing s' with
  | nil => cases h
  | cons frame outer ih =>
    rw [assign?] at h
    split at h
    · next bound =>
      cases h
      have same : (frame.declare name v).table = frame.table := by
        rw [Frame.table, Frame.declare,
          Bindings.names_insert_of_mem v ((Bindings.find?_isSome_iff name frame.vars).mp bound),
          Frame.table]
      show (frame.declare name v).table :: _ = frame.table :: _
      rw [same]
    · obtain ⟨outer', assigned, rfl⟩ := Option.map_eq_some_iff.mp h
      exact congrArg (frame.table :: ·) (ih assigned)

end Scope

end Scriptlet
