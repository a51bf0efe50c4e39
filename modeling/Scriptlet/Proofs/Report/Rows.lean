import Mathlib.Data.List.Induction
import Scriptlet.Proofs.Append.Scan
import Scriptlet.Proofs.Text.Pieces
import Scriptlet.Text.Lines

/-!
# Rows of a text

The rows of a text are what stands between its line feeds.  Positions count rows, and reports
show lines; the two are the same but for carriage returns and an empty last row.

## Main definitions

* `Text.shown` — the lines that are shown of some rows

## Main statements

* `Text.linesFrom_eq` — the lines of a text are those that are shown of its rows
* `exists_rows` — the row and the place in it at which a position stands
* `exists_line_of_place` — what is shown of that row
-/

namespace Scriptlet

namespace Text

/-- **Shown lines** of some rows.  All but the last row lose a carriage return at their end,
and the last one is not shown if it is empty. -/
def shown : List (List Char) → List (List Char)
  | [] => []
  | [row] => if row = [] then [] else [row]
  | row :: next :: rest => dropReturn row :: shown (next :: rest)

/-- **Lines are shown rows.** -/
theorem linesFrom_eq (line cs : List Char) :
    linesFrom line cs = shown ((cs.splitOn '\n').modifyHead (line.reverse ++ ·)) := by
  induction cs generalizing line with
  | nil => cases line <;> simp [linesFrom, shown]
  | cons c cs ih =>
    obtain ⟨row, rest, rows⟩ := List.exists_cons_of_ne_nil (List.splitOn_ne_nil '\n' cs)
    rw [linesFrom, List.splitOn_cons_eq_if_modifyHead, rows]
    by_cases newline : c = '\n'
    · rw [if_pos newline, if_pos (beq_iff_eq.mpr newline), ih, rows]
      simp [shown]
    · rw [if_neg newline, if_neg (mt beq_iff_eq.mp newline), ih, rows]
      simp

theorem dropReturn_eq_or (row : List Char) :
    dropReturn row = row ∨ dropReturn row ++ ['\r'] = row := by
  unfold dropReturn
  split
  · next ends => exact .inr (List.dropLast_append_getLast? '\r' ends)
  · exact .inl rfl

/-- A row with others behind it is shown without a carriage return at its end. -/
theorem getElem?_shown (rows : List (List Char)) (row next : List Char)
    (rest : List (List Char)) :
    (shown (rows ++ row :: next :: rest))[rows.length]? = some (dropReturn row) := by
  induction rows with
  | nil => rfl
  | cons first rows ih =>
    obtain ⟨second, others, same⟩ := List.exists_cons_of_ne_nil
      (List.append_ne_nil_of_right_ne_nil rows (List.cons_ne_nil row (next :: rest)))
    rw [List.cons_append, same, shown, ← same, List.length_cons, List.getElem?_cons_succ, ih]

/-- The last row is shown as it is, unless it is empty. -/
theorem getElem?_shown_last (rows : List (List Char)) (row : List Char) :
    (shown (rows ++ [row]))[rows.length]? = if row = [] then none else some row := by
  induction rows with
  | nil =>
    show (if row = [] then [] else [row])[0]? = _
    split <;> rfl
  | cons first rows ih =>
    obtain ⟨second, others, same⟩ := List.exists_cons_of_ne_nil
      (List.append_ne_nil_of_right_ne_nil rows (List.cons_ne_nil row []))
    rw [List.cons_append, same, shown, ← same, List.length_cons, List.getElem?_cons_succ, ih]

end Text

/-- **The row of a position.**  Behind the text `pre` there are as many rows as the line says,
less one, and in the next row as many characters as the column says, less one. -/
theorem exists_rows (pre post : List Char) : ∃ rows before behind rest,
    (pre ++ post).splitOn '\n' = rows ++ (before ++ behind) :: rest ∧
      post.splitOn '\n' = behind :: rest ∧
      Position.start.advanceBy pre = ⟨rows.length + 1, before.length + 1⟩ := by
  induction pre using List.reverseRecOn generalizing post with
  | nil =>
    obtain ⟨behind, rest, same⟩ := List.exists_cons_of_ne_nil (List.splitOn_ne_nil '\n' post)
    exact ⟨[], [], behind, rest, same, same, rfl⟩
  | append_singleton pre c ih =>
    obtain ⟨rows, before, behind, rest, whole, tail, place⟩ := ih (c :: post)
    obtain ⟨row, others, same⟩ := List.exists_cons_of_ne_nil (List.splitOn_ne_nil '\n' post)
    rw [List.append_assoc, List.singleton_append, Position.advanceBy_append, place, whole, same]
    rw [List.splitOn_cons_eq_if_modifyHead, same] at tail
    by_cases newline : c = '\n'
    · subst newline
      rw [if_pos (beq_self_eq_true _)] at tail
      obtain ⟨rfl, rfl⟩ := List.cons.inj tail
      exact ⟨rows ++ [before], [], row, others, by simp, rfl, by simp⟩
    · rw [if_neg (mt beq_iff_eq.mp newline), List.modifyHead_cons] at tail
      obtain ⟨rfl, rfl⟩ := List.cons.inj tail
      refine ⟨rows, before ++ [c], row, others, by simp, rfl, ?_⟩
      simp [Position.advance, newline]

/-- A line starts at the start of a text, or behind a line feed. -/
theorem eq_nil_or_of_column {cs : List Char} (h : (Position.start.advanceBy cs).column = 1) :
    cs = [] ∨ ∃ ds, cs = ds ++ ['\n'] := by
  cases cs using List.reverseRecOn with
  | nil => exact .inl rfl
  | append_singleton ds c =>
    obtain ⟨rows, before, -, -, -, -, place⟩ := exists_rows ds []
    rw [Position.advanceBy_append, place, Position.advanceBy_cons, Position.advance] at h
    split at h
    · next newline => exact .inr ⟨ds, by rw [newline]⟩
    · cases h

/-- If the first of several rows is empty, the text starts with a line feed. -/
theorem eq_cons_of_splitOn {cs next : List Char} {rest : List (List Char)}
    (h : cs.splitOn '\n' = [] :: next :: rest) : ∃ ds, cs = '\n' :: ds := by
  cases cs with
  | nil => cases h
  | cons c cs =>
    rw [List.splitOn_cons_eq_if_modifyHead] at h
    by_cases newline : c = '\n'
    · exact ⟨cs, by rw [newline]⟩
    · obtain ⟨row, others, same⟩ := List.exists_cons_of_ne_nil (List.splitOn_ne_nil '\n' cs)
      rw [if_neg (mt beq_iff_eq.mp newline), same] at h
      cases h

section Place

variable {pre post : List Char} {p : Position} (place : Position.start.advanceBy pre = p)

include place

variable (post) in
/-- Places in a text are in one of its rows, or right behind the row. -/
theorem exists_row_of_place :
    p.line ≤ 1 + (pre ++ post).count '\n' ∧
      ∃ row, ((pre ++ post).splitOn '\n')[p.line - 1]? = some row ∧ p.column ≤ row.length + 1 := by
  obtain ⟨rows, before, behind, rest, whole, -, same⟩ := exists_rows pre post
  rw [same] at place
  subst place
  rw [Nat.add_comm 1, ← length_splitOn, whole]
  refine ⟨?_, before ++ behind, ?_, ?_⟩
  · show rows.length + 1 ≤ _
    rw [List.length_append, List.length_cons]
    omega
  · show (rows ++ _)[rows.length]? = _
    rw [List.getElem?_append_right (Nat.le_refl _), Nat.sub_self, List.getElem?_cons_zero]
  · show before.length + 1 ≤ _
    rw [List.length_append]
    omega

/-- **The line of a place** where no line feed stands.  The row that the place is in is shown,
except for a carriage return at its end, and the place is in what is shown or right behind it.
Only at the end of the text the row may be empty and not shown. -/
theorem exists_line_of_place (inside : ∀ rest, post ≠ '\n' :: rest) :
    let rows := (pre ++ post).splitOn '\n'
    (∃ row line, rows[p.line - 1]? = some row ∧ (Text.shown rows)[p.line - 1]? = some line ∧
        (line = row ∨ line ++ ['\r'] = row) ∧ p.column - 1 ≤ line.length) ∨
      (Text.shown rows)[p.line - 1]? = none ∧ post = [] ∧
        p.line = 1 + (pre ++ post).count '\n' ∧ p.column = 1 := by
  obtain ⟨rows, before, behind, rest, whole, tail, same⟩ := exists_rows pre post
  rw [same] at place
  subst place
  have row : (rows ++ (before ++ behind) :: rest)[rows.length]? = some (before ++ behind) := by
    rw [List.getElem?_append_right (Nat.le_refl _), Nat.sub_self, List.getElem?_cons_zero]
  dsimp only
  rw [Nat.add_comm 1, ← length_splitOn, whole, Nat.add_sub_cancel, Nat.add_sub_cancel]
  cases rest with
  | nil =>
    have last := Text.getElem?_shown_last rows (before ++ behind)
    by_cases empty : before ++ behind = []
    · right
      rw [if_pos empty] at last
      obtain ⟨rfl, rfl⟩ := List.append_eq_nil_iff.mp empty
      have finished : ['\n'].intercalate (post.splitOn '\n') = post := List.intercalate_splitOn '\n'
      rw [tail] at finished
      refine ⟨last, finished.symm, ?_, rfl⟩
      rw [List.length_append, List.length_singleton]
    · left
      rw [if_neg empty] at last
      refine ⟨_, _, row, last, .inl rfl, ?_⟩
      rw [List.length_append]
      omega
  | cons next rest =>
    left
    have shown := Text.dropReturn_eq_or (before ++ behind)
    refine ⟨_, _, row, Text.getElem?_shown rows _ next rest, shown, ?_⟩
    -- The row goes on behind the place, so no carriage return in front of it is lost.
    have more : behind ≠ [] := by
      rintro rfl
      obtain ⟨ds, starts⟩ := eq_cons_of_splitOn tail
      exact inside ds starts
    have := List.length_pos_iff.mpr more
    rcases shown with same | same
    · rw [same, List.length_append]
      omega
    · have := congrArg List.length same
      rw [List.length_append, List.length_append, List.length_singleton] at this
      omega

end Place

end Scriptlet
