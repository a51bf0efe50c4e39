import Scriptlet.Error.Runtime

/-!
# Templates

A template is a text in which every percent sign is a place for a value.

## Main definitions

* `Template.fill?` — puts values into the first places
* `Template.fill` — the same, with the fault for too many values

## Main statements

* `Template.isSome_fill?` — filling succeeds if there is a place for every value
-/

namespace Scriptlet

namespace Template

/-- The sign that marks a place. -/
def placeholder : Char := '%'

/-- **Filling.**  Each value takes the next place; places that are left keep their
sign.  `none` if there are more values than places. -/
def fill? : List Char → List String → Option (List Char)
  | cs, [] => some cs
  | [], _ :: _ => none
  | c :: cs, v :: vs =>
    if c = placeholder then (fill? cs vs).map (v.toList ++ ·)
    else (fill? cs (v :: vs)).map (c :: ·)

@[simp] theorem fill?_nil (cs : List Char) : fill? cs [] = some cs := by
  cases cs <;> rfl

/-- **When filling succeeds:** there are no more values than places. -/
theorem isSome_fill? (cs : List Char) (vs : List String) :
    (fill? cs vs).isSome ↔ vs.length ≤ cs.count placeholder := by
  induction cs generalizing vs with
  | nil => cases vs <;> simp [fill?]
  | cons c cs ih =>
    cases vs with
    | nil => simp
    | cons v vs =>
      by_cases place : c = placeholder
      · simp [fill?, place, ih]
      · simp [fill?, place, ih]

/-- **Filled template**, or the fault that there are too many values. -/
def fill (template : String) (values : List String) : Except Fault String :=
  match fill? template.toList values with
  | some cs => .ok (String.ofList cs)
  | none => .error (.template values.length (template.toList.count placeholder))

end Template

end Scriptlet
