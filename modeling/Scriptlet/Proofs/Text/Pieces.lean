import Mathlib.Data.List.Basic

/-!
# Pieces of a text

A text that is cut at a character: at line feeds into rows, and at percent signs into the parts of
a template.

## Main statements

* `splitOn_cons_self`, `splitOn_cons_of_ne` — the first character is where to cut, or is not
* `length_splitOn` — there is one piece more than there are cuts
-/

namespace Scriptlet

variable {c d : Char} {cs : List Char}

theorem splitOn_cons_self : (c :: cs).splitOn c = [] :: cs.splitOn c := by
  rw [List.splitOn_cons_eq_if_modifyHead, if_pos (beq_self_eq_true _)]

theorem splitOn_cons_of_ne (other : d ≠ c) :
    (d :: cs).splitOn c = (cs.splitOn c).modifyHead (d :: ·) := by
  rw [List.splitOn_cons_eq_if_modifyHead, if_neg (mt beq_iff_eq.mp other)]

/-- **There is one piece more than there are cuts.** -/
theorem length_splitOn (c : Char) (cs : List Char) : (cs.splitOn c).length = cs.count c + 1 := by
  induction cs with
  | nil => rfl
  | cons d cs ih =>
    by_cases cut : d = c
    · subst cut
      rw [splitOn_cons_self, List.length_cons, ih, List.count_cons_self]
    · rw [splitOn_cons_of_ne cut, List.length_modifyHead, ih, List.count_cons_of_ne cut]

end Scriptlet
