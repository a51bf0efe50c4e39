import Mathlib.Data.List.Induction
import Scriptlet.Proofs.Append.Scan

/-!
# Sites of tokens

The scanner moves a position along with the text.  Counted from the start of the text instead,
the line of a token is told by the line feeds in front of it, and its column by the characters
behind the last of them.

## Main definitions

* `Site.behind` — the site behind a text, by counting
* `Site.Precedes` — the order in which sites are read
* `Scan.places` — where the tokens of a sequence of pieces stand

## Main statements

* `Site.behind_eq` — counting gives the position of the scanner
* `Scan.map_tokens_eq` — tokens stand at the places of the pieces that they come from
* `Scan.Cut.pairwise_tokens` — and come in the order of reading
* `tokenize_sites` — the sites of tokens and of errors

## Design decisions

* Where a token stands is said by the pieces in front of it, which together are the text in
  front of it.  Sites play no part in that.
* No two tokens have one site: every piece has a character, and every character moves the
  position on.
-/

namespace Scriptlet

/-! ## Counting -/

namespace Site

/-- **The site behind a text.**  Lines are counted by line feeds, and columns by the characters
behind the last line feed. -/
def behind (file : String) (pre : List Char) : Site :=
  ⟨file, 1 + pre.count '\n', 1 + (pre.reverse.takeWhile (· ≠ '\n')).length⟩

/-- **Order of reading**: the line decides, and in one line the column. -/
def Precedes (a b : Site) : Prop := a.line < b.line ∨ a.line = b.line ∧ a.column < b.column

theorem Precedes.ne {a b : Site} (h : a.Precedes b) : a ≠ b := by
  rintro rfl
  rcases h with h | ⟨-, h⟩ <;> exact Nat.lt_irrefl _ h

/-- Counting gives the position that is moved along with the text. -/
theorem behind_eq (file : String) (pre : List Char) :
    behind file pre = .ofPosition file (Position.start.advanceBy pre) := by
  rw [behind, ofPosition, Position.line_advanceBy, Site.mk.injEq]
  refine ⟨rfl, rfl, ?_⟩
  -- The last character decides, so the induction takes characters off the end.
  induction pre using List.reverseRecOn with
  | nil => rfl
  | append_singleton pre c ih =>
    rw [List.reverse_append, List.reverse_singleton, List.singleton_append,
      Position.advanceBy_append, Position.advanceBy_cons, Position.advanceBy_nil, Position.advance]
    by_cases newline : c = '\n'
    · rw [if_pos newline, List.takeWhile_cons_of_neg (by simpa using newline)]
      rfl
    · rw [if_neg newline, List.takeWhile_cons_of_pos (by simpa using newline), ← ih]
      rfl

/-- A longer text ends at a later site. -/
theorem behind_precedes (file : String) (pre : List Char) {w : List Char} (ne : w ≠ []) :
    (behind file pre).Precedes (behind file (pre ++ w)) := by
  by_cases newline : '\n' ∈ w
  · have := List.count_pos_iff.mpr newline
    left
    simp only [behind, List.count_append]
    omega
  · -- In one line all the characters are behind the last line feed.
    have line : ∀ c ∈ w.reverse, decide (c ≠ '\n') = true := by
      intro c mem
      simpa using fun same : c = '\n' => newline (same ▸ List.mem_reverse.mp mem)
    have := List.length_pos_iff.mpr ne
    right
    simp only [behind, List.count_append, List.count_eq_zero_of_not_mem newline,
      List.reverse_append, List.takeWhile_append_of_pos line, List.length_append,
      List.length_reverse]
    omega

end Site

namespace Scan

/-! ## Places -/

/-- **Places of the tokens** of a sequence of pieces that starts behind the text `pre`: the text
in front of each token, and its own.  The end token stands behind everything and has no text. -/
def places : List Char → List (List Char × Piece) → List (List Char × List Char)
  | pre, [] => [(pre, [])]
  | pre, (w, .skipped) :: pieces => places (pre ++ w) pieces
  | pre, (w, .token _) :: pieces => (pre, w) :: places (pre ++ w) pieces

/-- A place in a text is the text up to there and the text of the token. -/
theorem prefix_of_mem_places {pre : List Char} {pieces : List (List Char × Piece)}
    {place : List Char × List Char} (h : place ∈ places pre pieces) :
    place.1 ++ place.2 <+: pre ++ pieces.flatMap Prod.fst := by
  induction pieces generalizing pre with
  | nil =>
    obtain rfl := List.mem_singleton.mp h
    exact List.prefix_rfl
  | cons piece pieces ih =>
    obtain ⟨w, piece⟩ := piece
    rw [List.flatMap_cons, ← List.append_assoc]
    cases piece with
    | skipped => exact ih h
    | token kind =>
      obtain rfl | h := List.mem_cons.mp h
      · exact List.prefix_append _ _
      · exact ih h

/-- What stands at the start of a place was in front of the whole sequence, or comes later. -/
theorem exists_of_mem_places {pre : List Char} {pieces : List (List Char × Piece)}
    {place : List Char × List Char} (h : place ∈ places pre pieces) :
    ∃ between, place.1 = pre ++ between := by
  induction pieces generalizing pre with
  | nil =>
    obtain rfl := List.mem_singleton.mp h
    exact ⟨[], (List.append_nil pre).symm⟩
  | cons piece pieces ih =>
    obtain ⟨w, piece⟩ := piece
    have later (h : place ∈ places (pre ++ w) pieces) : ∃ between, place.1 = pre ++ between := by
      obtain ⟨between, same⟩ := ih h
      exact ⟨w ++ between, by rw [same, List.append_assoc]⟩
    cases piece with
    | skipped => exact later h
    | token kind =>
      obtain rfl | h := List.mem_cons.mp h
      · exact ⟨[], (List.append_nil pre).symm⟩
      · exact later h

/-- **Places in a text that was cut up** are in the order of reading. -/
theorem Cut.pairwise_places {cs rest : List Char} {pieces : List (List Char × Piece)}
    (h : Cut cs pieces rest) (file : String) (pre : List Char) :
    (places pre pieces).Pairwise fun a b =>
      (Site.behind file a.1).Precedes (Site.behind file b.1) := by
  induction h generalizing pre with
  | nil cs => exact List.pairwise_singleton _ _
  | @cons w cs rest piece pieces first others ih =>
    cases piece with
    | skipped => exact ih (pre ++ w)
    | token kind =>
      refine List.pairwise_cons.mpr ⟨fun place mem => ?_, ih (pre ++ w)⟩
      obtain ⟨between, same⟩ := exists_of_mem_places mem
      rw [same, List.append_assoc]
      exact Site.behind_precedes file pre (List.append_ne_nil_of_left_ne_nil first.ne_nil between)

/-- **Tokens stand at their places**, with the text and at the site of the place. -/
theorem map_tokens_eq (file : String) (pre : List Char) (pieces : List (List Char × Piece)) :
    (tokens file (Position.start.advanceBy pre) pieces).map (fun t => (t.lexeme, t.site)) =
      (places pre pieces).map fun place => (String.ofList place.2, Site.behind file place.1) := by
  induction pieces generalizing pre with
  | nil =>
    rw [places, List.map_singleton, Site.behind_eq]
    rfl
  | cons piece pieces ih =>
    obtain ⟨w, piece⟩ := piece
    have later := ih (pre ++ w)
    rw [Position.advanceBy_append] at later
    cases piece with
    | skipped => exact later
    | token kind => rw [tokens, places, List.map_cons, List.map_cons, later, Site.behind_eq]

/-- **Tokens are in the order of reading.** -/
theorem Cut.pairwise_tokens {cs rest : List Char} {pieces : List (List Char × Piece)}
    (h : Cut cs pieces rest) (file : String) :
    (tokens file .start pieces).Pairwise fun t u => t.site.Precedes u.site := by
  have sites : (tokens file .start pieces).map Token.site =
      (places [] pieces).map fun place => Site.behind file place.1 := by
    have same := congrArg (List.map Prod.snd) (map_tokens_eq file [] pieces)
    rwa [List.map_map, List.map_map] at same
  have ordered := List.pairwise_map.mpr (h.pairwise_places file [])
  rw [← sites] at ordered
  exact List.pairwise_map.mp ordered

theorem site_failure (file : String) (p : Position) (c : Char) :
    (failure file p c).site = .ofPosition file p := by
  unfold failure
  split <;> rfl

end Scan

open Scan

/-- **Sites of tokens.**  The tokens of a source text stand at the places that its pieces give
them, and there the site of each is that behind the text in front of it.  The sites are in the
order of reading, and the last one is behind the whole text.  If the text has no tokens, the
error is at the site behind what could be cut up. -/
theorem tokenize_sites (source file : String) :
    (∀ ts, tokenize source file = .ok ts →
      ∃ pieces, Cut source.toList pieces [] ∧
        (∀ place ∈ places [] pieces, place.1 ++ place.2 <+: source.toList) ∧
        ts.map (fun t => (t.lexeme, t.site)) =
          (places [] pieces).map (fun place => (String.ofList place.2, Site.behind file place.1)) ∧
        ts.Pairwise (fun t u => t.site.Precedes u.site) ∧
        ts.getLast? = some ⟨.endOfStream, "", {}, .behind file source.toList⟩) ∧
    ∀ e, tokenize source file = .error e →
      ∃ pieces c rest, Cut source.toList pieces (c :: rest) ∧ Stuck (c :: rest) ∧
        e.site = .behind file (pieces.flatMap Prod.fst) := by
  obtain ⟨pieces, rest, cut, stuck, run⟩ :=
    scan_eq_cutResult file source.toList.length .start source.toList (Nat.le_refl _)
  have result : tokenize source file = cutResult file .start pieces rest := run
  have text := cut.eq_append
  cases rest with
  | nil =>
    rw [List.append_nil] at text
    refine ⟨fun ts accepted => ?_, fun e rejected => ?_⟩
    · obtain rfl : tokens file .start pieces = ts := Except.ok.inj (result.symm.trans accepted)
      refine ⟨pieces, cut, fun place mem => ?_, map_tokens_eq file [] pieces,
        cut.pairwise_tokens file, ?_⟩
      · rw [text]
        exact prefix_of_mem_places mem
      · rw [tokens_eq_inner, List.getLast?_concat, ← text, Site.behind_eq]
        rfl
    · cases result.symm.trans rejected
  | cons c rest =>
    refine ⟨fun ts accepted => ?_, fun e rejected => ?_⟩
    · cases result.symm.trans accepted
    · obtain rfl := Except.error.inj (result.symm.trans rejected)
      refine ⟨pieces, c, rest, cut, stuck, ?_⟩
      rw [site_failure, Site.behind_eq]

end Scriptlet
