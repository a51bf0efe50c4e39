import Scriptlet.Proofs.Append.Scan

/-!
# Lexemes

The tokens of a text and the pieces that they come from.

## Main statements

* `Scan.Spells.takes` — a piece is taken where it is the whole text
* `Scan.Cut.exists_takes` — the pieces of a text that was cut up are those that are taken
* `Scan.mem_tokens` — a token but for the end token has the text and the kind of a piece
-/

namespace Scriptlet

namespace Scan

/-- **A piece is taken where it is the whole text**, unless it has a fixed spelling but was read
as a name. -/
theorem Spells.takes {w : List Char} {p : Piece} (spells : Spells w p)
    (free : ∀ kind, String.ofList w ∈ spellings kind →
      p ≠ .token (.identifier (String.ofList w))) :
    Takes w w p where
  starts := List.prefix_rfl
  spells := spells
  longest _ _ starts _ := starts.length_le
  prefers := by
    intro word kind mem same
    rw [spells.eq_meaning free, ← same]
    exact meaning_of_mem_spellings mem

/-- What is taken from a text is taken alone. -/
theorem Takes.alone {cs w : List Char} {p : Piece} (taken : Takes cs w p) : Takes w w p where
  starts := List.prefix_rfl
  spells := taken.spells
  longest _ _ starts _ := starts.length_le
  prefers := taken.prefers

/-- A text that is one piece is cut into that piece. -/
theorem Takes.cut {w : List Char} {p : Piece} (taken : Takes w w p) : Cut w [(w, p)] [] := by
  have whole : Takes (w ++ []) w p := by rwa [List.append_nil]
  simpa using Cut.cons whole (.nil [])

/-- Pieces of a text that was cut up are those that are taken. -/
theorem Cut.exists_takes {cs rest : List Char} {pieces : List (List Char × Piece)}
    (cut : Cut cs pieces rest) : ∀ piece ∈ pieces, Takes piece.1 piece.1 piece.2 := by
  induction cut with
  | nil cs => simp
  | cons first others ih => exact List.forall_mem_cons.mpr ⟨first.alone, ih⟩

/-- A token but for the end token has the text and the kind of a piece. -/
theorem mem_tokens {file : String} {p : Position} {pieces : List (List Char × Piece)} {t : Token}
    (mem : t ∈ tokens file p pieces) :
    t.kind = .endOfStream ∨ (t.lexeme.toList, .token t.kind) ∈ pieces := by
  induction pieces generalizing p with
  | nil =>
    rw [List.mem_singleton.mp mem]
    exact .inl rfl
  | cons piece pieces ih =>
    obtain ⟨w, piece⟩ := piece
    cases piece with
    | skipped => exact (ih mem).imp_right (List.mem_cons_of_mem _)
    | token kind =>
      rcases List.mem_cons.mp mem with rfl | mem
      · right
        rw [String.toList_ofList]
        exact List.mem_cons_self
      · exact (ih mem).imp_right (List.mem_cons_of_mem _)

end Scan

end Scriptlet
