import Scriptlet.Proofs.Scan.Tokenize
import Scriptlet.Proofs.Sites.Grammar

/-!
# Scanning texts with a line end between them

A line end is a piece of its own, so no piece reaches from the text before it into the text
behind it.

## Main definitions

* `Position.down` — the same column some lines further down
* `Scan.inner` — the tokens of a sequence of pieces, without the end token

## Main statements

* `Scan.Cut.lines` — two texts are cut as they are cut alone
* `Scan.inner_lines` — the tokens are those of both texts, the second ones moved down
* `tokenize_eq_ok_iff` — a text has tokens exactly if it can be cut up
-/

namespace Scriptlet

/-! ## Positions -/

namespace Position

/-- The position `k` lines further down. -/
def down (k : Nat) (p : Position) : Position := ⟨p.line + k, p.column⟩

theorem advanceBy_down (k : Nat) (p : Position) (cs : List Char) :
    (p.down k).advanceBy cs = (p.advanceBy cs).down k := by
  induction cs generalizing p with
  | nil => rfl
  | cons c cs ih =>
    have step : (p.down k).advance c = (p.advance c).down k := by
      unfold advance down
      split
      · rw [Nat.add_right_comm]
      · rfl
    rw [advanceBy_cons, step, ih, advanceBy_cons]

theorem line_advanceBy (p : Position) (cs : List Char) :
    (p.advanceBy cs).line = p.line + cs.count '\n' := by
  induction cs generalizing p with
  | nil => rfl
  | cons c cs ih =>
    rw [advanceBy_cons, ih, advance]
    split
    · next newline =>
      rw [newline, List.count_cons_self]
      show p.line + 1 + _ = _
      omega
    · next other => rw [List.count_cons_of_ne other]

/-- Behind a text and a line end a line starts. -/
theorem advance_advanceBy_start (cs : List Char) :
    (start.advanceBy cs).advance '\n' = start.down (1 + cs.count '\n') := by
  have line : (start.advanceBy cs).line + 1 = start.line + (1 + cs.count '\n') := by
    rw [line_advanceBy]
    omega
  rw [advance_newline, line]
  rfl

end Position

namespace Scan

/-! ## Pieces at a line end -/

theorem Quoted.newline_not_mem {w v : List Char} (h : Quoted w v) : '\n' ∉ w := by
  induction h with
  | nil => exact List.not_mem_nil
  | plain _ _ newline _ ih => simpa using ⟨Ne.symm newline, ih⟩
  | escape newline _ ih => simpa using ⟨Ne.symm newline, ih⟩

/-- A piece with a line end in it is that line end. -/
theorem Spells.eq_newline {w : List Char} {p : Piece} (h : Spells w p) (mem : '\n' ∈ w) :
    w = ['\n'] := by
  have noDigit : ¬ '\n'.isDigit := by decide
  cases h with
  | whole digits => exact absurd (digits.2 _ mem) noDigit
  | fraction digits digits' =>
    rcases List.mem_append.mp mem with whole | mem
    · exact absurd (digits.2 _ whole) noDigit
    · rcases List.mem_cons.mp mem with point | places
      · exact absurd point (by decide)
      · exact absurd (digits'.2 _ places) noDigit
  | text inner =>
    rcases List.mem_append.mp mem with opened | closing
    · rcases List.mem_cons.mp opened with opening | between
      · exact absurd opening (by decide)
      · exact absurd between inner.newline_not_mem
    · exact absurd closing (by decide)
  | @fixed word kind fixed =>
    have words : ∀ entry ∈ reserved, '\n' ∉ entry.1.toList := by decide
    have marks : ∀ entry ∈ symbols, '\n' ∉ entry.1 := by decide
    rcases mem_tables_of_mem_spellings fixed with isWord | isMark
    · exact absurd mem (words _ isWord)
    · exact absurd mem (marks _ isMark)
  | name start part =>
    have noLetter : ¬ ('\n'.isAlpha ∨ '\n' = '_') := by decide
    have noPart : ¬ ('\n'.isAlphanum ∨ '\n' = '_') := by decide
    rcases List.mem_cons.mp mem with rfl | rest
    · exact absurd start noLetter
    · exact absurd (part _ rest) noPart
  | comment line =>
    rcases List.mem_cons.mp mem with slash | mem
    · exact absurd slash (by decide)
    · rcases List.mem_cons.mp mem with slash | rest
      · exact absurd slash (by decide)
      · exact absurd rfl (line _ rest)
  | newline => rfl
  | blanks _ blank => exact absurd (blank _ mem) (by decide)

/-- **A piece is taken whatever stands behind a line end.** -/
theorem Takes.append_newline {cs w : List Char} {p : Piece} (h : Takes cs w p) (ds : List Char) :
    Takes (cs ++ '\n' :: ds) w p where
  starts := h.starts.trans (List.prefix_append cs _)
  spells := h.spells
  longest := by
    intro w' p' starts spells
    by_cases short : w'.length ≤ cs.length
    · exact h.longest w' p'
        (List.prefix_of_prefix_length_le starts (List.prefix_append cs _) short) spells
    · -- A longer piece has the line end in it, so it is no longer than one character.
      have upTo : cs ++ ['\n'] <+: cs ++ '\n' :: ds := ⟨ds, by simp⟩
      have reach : cs ++ ['\n'] <+: w' := by
        refine List.prefix_of_prefix_length_le upTo starts ?_
        rw [List.length_append, List.length_singleton]
        omega
      rw [spells.eq_newline (reach.subset (by simp)), List.length_singleton]
      exact List.length_pos_iff.mpr h.ne_nil
  prefers := h.prefers

theorem takes_newline (ds : List Char) : Takes ('\n' :: ds) ['\n'] .skipped where
  starts := ⟨ds, rfl⟩
  spells := .newline
  longest := by
    intro w' p' starts spells
    obtain ⟨c, w, rfl⟩ := List.exists_cons_of_ne_nil spells.ne_nil
    obtain ⟨rfl, -⟩ := List.cons_prefix_cons.mp starts
    rw [spells.eq_newline List.mem_cons_self]
  prefers := by
    intro word kind mem spelled
    have means := meaning_of_mem_spellings mem
    rw [spelled] at means
    exact means

/-! ## Cutting -/

theorem Cut.append_newline {cs rest : List Char} {pieces : List (List Char × Piece)}
    (h : Cut cs pieces rest) (ds : List Char) :
    Cut (cs ++ '\n' :: ds) pieces (rest ++ '\n' :: ds) := by
  induction h with
  | nil cs => exact .nil _
  | cons first _ ih =>
    have taken := first.append_newline ds
    rw [List.append_assoc] at taken ⊢
    exact .cons taken ih

theorem Cut.append {cs mid rest : List Char} {pieces pieces' : List (List Char × Piece)}
    (h : Cut cs pieces mid) (h' : Cut mid pieces' rest) : Cut cs (pieces ++ pieces') rest := by
  induction h with
  | nil cs => exact h'
  | cons first _ ih => exact .cons first (ih h')

/-- **Two texts with a line end between them** are cut as they are cut alone. -/
theorem Cut.lines {cs ds : List Char} {pieces pieces' : List (List Char × Piece)}
    (h : Cut cs pieces []) (h' : Cut ds pieces' []) :
    Cut (cs ++ '\n' :: ds) (pieces ++ (['\n'], .skipped) :: pieces') [] := by
  have second : Cut (['\n'] ++ ds) ((['\n'], .skipped) :: pieces') [] :=
    .cons (takes_newline ds) h'
  exact (h.append_newline ds).append second

/-! ## Tokens -/

/-- The tokens of pieces, without the end token. -/
def inner (file : String) : Position → List (List Char × Piece) → List Token
  | _, [] => []
  | p, (w, .skipped) :: pieces => inner file (p.advanceBy w) pieces
  | p, (w, .token kind) :: pieces =>
    ⟨kind, String.ofList w, kind.flags, .ofPosition file p⟩ :: inner file (p.advanceBy w) pieces

theorem inner_skipped (file : String) (p : Position) (w : List Char)
    (pieces : List (List Char × Piece)) :
    inner file p ((w, .skipped) :: pieces) = inner file (p.advanceBy w) pieces := rfl

theorem inner_token (file : String) (p : Position) (w : List Char) (kind : TokenKind)
    (pieces : List (List Char × Piece)) :
    inner file p ((w, .token kind) :: pieces) =
      ⟨kind, String.ofList w, kind.flags, .ofPosition file p⟩ ::
        inner file (p.advanceBy w) pieces := rfl

theorem tokens_eq_inner (file : String) (p : Position) (pieces : List (List Char × Piece)) :
    tokens file p pieces =
      inner file p pieces ++ [endToken file (p.advanceBy (pieces.flatMap Prod.fst))] := by
  induction pieces generalizing p with
  | nil => rfl
  | cons piece pieces ih =>
    obtain ⟨w, piece⟩ := piece
    cases piece with
    | skipped => rw [tokens, inner_skipped, ih, List.flatMap_cons, Position.advanceBy_append]
    | token kind =>
      rw [tokens, inner_token, ih, List.flatMap_cons, Position.advanceBy_append,
        List.cons_append]

theorem inner_append (file : String) (p : Position) (pieces pieces' : List (List Char × Piece)) :
    inner file p (pieces ++ pieces') =
      inner file p pieces ++ inner file (p.advanceBy (pieces.flatMap Prod.fst)) pieces' := by
  induction pieces generalizing p with
  | nil => rfl
  | cons piece pieces ih =>
    obtain ⟨w, piece⟩ := piece
    cases piece with
    | skipped =>
      rw [List.cons_append, inner_skipped, inner_skipped, ih, List.flatMap_cons,
        Position.advanceBy_append]
    | token kind =>
      rw [List.cons_append, inner_token, inner_token, ih, List.flatMap_cons,
        Position.advanceBy_append, List.cons_append]

/-- The tokens of the same pieces at other positions are at other sites. -/
theorem inner_down {file file' : String} {k : Nat} {f : Site → Site}
    (place : ∀ q, f (.ofPosition file q) = .ofPosition file' (q.down k)) (p : Position)
    (pieces : List (List Char × Piece)) :
    inner file' (p.down k) pieces = (inner file p pieces).map (Token.mapSites f) := by
  induction pieces generalizing p with
  | nil => rfl
  | cons piece pieces ih =>
    obtain ⟨w, piece⟩ := piece
    cases piece with
    | skipped => rw [inner_skipped, inner_skipped, Position.advanceBy_down, ih]
    | token kind =>
      rw [inner_token, inner_token, Position.advanceBy_down, ih, List.map_cons, Token.mapSites,
        place]

/-- **The tokens of two texts with a line end between them.** -/
theorem inner_lines {cs : List Char} {file : String} {f : Site → Site}
    {pieces pieces' : List (List Char × Piece)} (h : Cut cs pieces [])
    (place : ∀ q, f (.ofPosition file q) = .ofPosition file (q.down (1 + cs.count '\n'))) :
    inner file .start (pieces ++ (['\n'], .skipped) :: pieces') =
      inner file .start pieces ++ (inner file .start pieces').map (Token.mapSites f) := by
  have whole : pieces.flatMap Prod.fst = cs := by
    rw [h.eq_append, List.append_nil]
  rw [inner_append, whole, inner_skipped]
  show _ ++ inner file ((Position.start.advanceBy cs).advance '\n') pieces' = _
  rw [Position.advance_advanceBy_start, inner_down place]

theorem mem_inner {file : String} {p : Position} {pieces : List (List Char × Piece)} {t : Token}
    (h : t ∈ inner file p pieces) : t.Regular ∧ t.site.file = file ∧
      ∃ piece ∈ pieces, piece.2 = .token t.kind := by
  induction pieces generalizing p with
  | nil => cases h
  | cons piece pieces ih =>
    obtain ⟨w, piece⟩ := piece
    cases piece with
    | skipped =>
      obtain ⟨regular, here, piece, mem, same⟩ := ih h
      exact ⟨regular, here, piece, .tail _ mem, same⟩
    | token kind =>
      rcases List.mem_cons.mp h with rfl | h
      · exact ⟨rfl, rfl, _, .head _, rfl⟩
      · obtain ⟨regular, here, piece, mem, same⟩ := ih h
        exact ⟨regular, here, piece, .tail _ mem, same⟩

end Scan

open Scan

/-- A text has tokens exactly if it can be cut up, and then those of its pieces. -/
theorem tokenize_eq_ok_iff {source file : String} {ts : List Token} :
    tokenize source file = .ok ts ↔
      ∃ pieces, Cut source.toList pieces [] ∧ ts = tokens file .start pieces := by
  obtain ⟨pieces, rest, cut, stuck, run⟩ :=
    scan_eq_cutResult file source.toList.length .start source.toList (Nat.le_refl _)
  have result : tokenize source file = cutResult file .start pieces rest := run
  constructor
  · intro accepted
    rw [result] at accepted
    cases rest with
    | nil => exact ⟨pieces, cut, (Except.ok.inj accepted).symm⟩
    | cons c rest => nomatch accepted
  · rintro ⟨pieces', cut', rfl⟩
    obtain ⟨rfl, rfl⟩ := cut.unique stuck cut' stuck_nil
    exact result

/-- The tokens of a text are regular, and the last one is an end token. -/
theorem regular_and_ended {source file : String} {ts : List Token}
    (h : tokenize source file = .ok ts) :
    (∀ t ∈ ts, t.Regular) ∧ ∃ t ∈ ts, t.kind = .endOfStream := by
  obtain ⟨pieces, -, rfl⟩ := tokenize_eq_ok_iff.mp h
  rw [tokens_eq_inner]
  refine ⟨List.forall_mem_append.mpr ⟨fun t mem => (mem_inner mem).1, ?_⟩, _,
    List.mem_append_right _ (List.mem_singleton_self _), rfl⟩
  intro t mem
  rw [List.mem_singleton.mp mem]
  rfl

end Scriptlet
