import Scriptlet.Host.Standard
import Scriptlet.Proofs.Text.Pieces

/-!
# Placeholders of a template

A template is cut into pieces at its places, and a filled template has the values between these
pieces.  So only the places of the template itself are filled: a sign inside of a value stands
between two pieces and is not looked at again.

## Main definitions

* `Template.pieces` — a template cut at its places
* `Template.joined` — pieces with values between the first of them and signs between the others

## Main statements

* `Template.fill?_eq_joined` — filling puts the values between the pieces
* `Template.fill_pieces` — the text that a template and values give, or the fault

## Design decisions

* The pieces are those of the library's `List.splitOn`, which knows nothing of values.
-/

namespace Scriptlet

namespace Template

/-- **Pieces** of a template: what stands before, between and behind its places. -/
def pieces (template : String) : List (List Char) := template.toList.splitOn placeholder

/-- **Joined pieces.**  Each value stands behind its piece, and the pieces that are left keep the
signs between them. -/
def joined (pieces values : List (List Char)) : List Char :=
  (List.zipWith (· ++ ·) pieces values).flatten ++
    [placeholder].intercalate (pieces.drop values.length)

/-- A piece in front of which a character is put. -/
theorem joined_modifyHead {pieces values : List (List Char)} (cut : pieces ≠ [])
    (some : values ≠ []) (c : Char) :
    joined (pieces.modifyHead (c :: ·)) values = c :: joined pieces values := by
  obtain ⟨p, ps, rfl⟩ := List.exists_cons_of_ne_nil cut
  obtain ⟨v, vs, rfl⟩ := List.exists_cons_of_ne_nil some
  rfl

/-- **Filling puts the values between the pieces.** -/
theorem fill?_eq_joined {cs : List Char} {vs : List String}
    (enough : vs.length ≤ cs.count placeholder) :
    fill? cs vs = some (joined (cs.splitOn placeholder) (vs.map String.toList)) := by
  induction cs generalizing vs with
  | nil =>
    obtain rfl : vs = [] := List.eq_nil_of_length_eq_zero (Nat.le_zero.mp enough)
    rfl
  | cons c cs ih =>
    cases vs with
    | nil =>
      rw [fill?_nil, joined, List.map_nil, List.zipWith_nil_right, List.flatten_nil,
        List.nil_append, List.length_nil, List.drop_zero, List.intercalate_splitOn]
    | cons v vs =>
      by_cases place : c = placeholder
      · subst place
        rw [List.count_cons_self, List.length_cons] at enough
        rw [fill?, if_pos rfl, ih (Nat.le_of_succ_le_succ enough), splitOn_cons_self]
        simp [joined]
      · have some : (v :: vs).map String.toList ≠ [] := List.cons_ne_nil _ _
        rw [List.count_cons_of_ne place] at enough
        rw [fill?, if_neg place, ih enough, splitOn_cons_of_ne place,
          joined_modifyHead (List.splitOn_ne_nil _ _) some]
        rfl

/-- **Filled templates.**  With `k` places there are `k + 1` pieces.  More values than places are
an invalid argument, and the fault names both numbers.  Otherwise the texts of the values stand
between the first pieces, in their order, and the signs that are left between the others. -/
theorem fill_pieces (heap : Heap) (template : String) (values : List Value) :
    (pieces template).length = template.toList.count placeholder + 1 ∧
    (template.toList.count placeholder < values.length →
      ∃ fault, fill template (values.map heap.text) = .error fault ∧
        fault.kind = .invalidArgument ∧
        fault.details = "print received " ++ Nat.repr values.length ++ " value(s) for " ++
          Nat.repr (template.toList.count placeholder) ++ " placeholder(s)") ∧
    (values.length ≤ template.toList.count placeholder →
      fill template (values.map heap.text) =
        .ok (.ofList (joined (pieces template) (values.map fun v => (heap.text v).toList)))) := by
  refine ⟨length_splitOn _ _, fun more => ?_, fun enough => ?_⟩
  · have none : fill? template.toList (values.map heap.text) = none := by
      rw [← Option.not_isSome_iff_eq_none, isSome_fill?, List.length_map]
      omega
    refine ⟨.template values.length (template.toList.count placeholder), ?_, rfl, rfl⟩
    rw [fill, none, List.length_map]
  · have filled : fill? template.toList (values.map heap.text) =
        some (joined (pieces template) ((values.map heap.text).map String.toList)) :=
      fill?_eq_joined (by rwa [List.length_map])
    rw [fill, filled, List.map_map]
    rfl

/-- A sign inside of a value, and one that is left. -/
example : fill "%, %, %" ["%", "1"] = .ok "%, 1, %" := by rfl

end Template

end Scriptlet
