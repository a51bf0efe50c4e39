import Scriptlet.Proofs.Parser.Lenient
import Scriptlet.Proofs.Scan.Quote

/-!
# Layout

Between the lexemes of a text there may be any whitespace, with comments in it.  It gives the
same tokens and the same tree, at other sites.

## Main definitions

* `Scan.Gap`, `Scan.Separator` — whitespace with comments in it
* `Scan.Spaced`, `Scan.Laid` — words with separators between them, and around them
* `Scan.meanings` — the pieces of a text that give tokens
* `unplaced` — what is left of a result when sites do not count

## Main statements

* `Scan.Takes.append_blank` — a lexeme is taken in front of a blank
* `Scan.Gap.exists_cut` — a gap is cut into pieces that give no token
* `Scan.Laid.exists_cut` — words in any layout are cut into the words
* `tokenize_laid` — other layout gives the same tokens and the same result of parsing

## Design decisions

* A comment has to end with a line feed, or it would take along what comes behind it.  It has to
  have whitespace in front, since a word may end with a slash.
* A run of blanks is one piece however it was put together, so the pieces of a gap are not those
  of its parts, and a blank in front of a gap may make its first piece longer.
-/

namespace Scriptlet

namespace Scan

/-! ## Separators -/

/-- **Blank**: whitespace that does not end a line. -/
abbrev IsBlank (c : Char) : Prop := c ∈ [' ', '\t', '\r', '\x0c']

/-- **Gap.**  Whitespace, and comments that a line feed ends. -/
inductive Gap : List Char → Prop where
  | nil : Gap []
  | blank {c : Char} {cs : List Char} (blank : IsBlank c) (rest : Gap cs) : Gap (c :: cs)
  | newline {cs : List Char} (rest : Gap cs) : Gap ('\n' :: cs)
  | comment {w cs : List Char} (line : ∀ c ∈ w, c ≠ '\n') (rest : Gap cs) :
      Gap ('/' :: '/' :: w ++ '\n' :: cs)

/-- **Separator.**  A gap that starts with whitespace. -/
inductive Separator : List Char → Prop where
  | blank {c : Char} {cs : List Char} (blank : IsBlank c) (rest : Gap cs) : Separator (c :: cs)
  | newline {cs : List Char} (rest : Gap cs) : Separator ('\n' :: cs)

theorem Separator.gap {cs : List Char} (h : Separator cs) : Gap cs := by
  cases h with
  | blank blank rest => exact .blank blank rest
  | newline rest => exact .newline rest

/-- **Words with separators between them.**  Behind the last word there may be one more. -/
inductive Spaced : List (List Char) → List Char → Prop where
  | nil : Spaced [] []
  | cons {w gap text : List Char} {words : List (List Char)}
      (between : Separator gap ∨ gap = [] ∧ words = []) (rest : Spaced words text) :
      Spaced (w :: words) (w ++ (gap ++ text))

/-- **Layout.**  Words with separators between them and, if one likes, around them. -/
def Laid (words : List (List Char)) (text : List Char) : Prop :=
  ∃ gap body, (Separator gap ∨ gap = []) ∧ text = gap ++ body ∧ Spaced words body

/-! ## Blanks -/

/-- Only what is skipped, and texts, have blanks in them. -/
theorem Spells.skipped_or_quoted {c : Char} {w : List Char} {p : Piece} (spells : Spells w p)
    (mem : c ∈ w) (blank : IsBlank c) :
    p = .skipped ∨ ∃ inner v, w = '"' :: inner ++ ['"'] ∧ Quoted inner v := by
  have noDigit : ∀ c, IsBlank c → ¬ c.isDigit := by simp
  have noPart : ∀ c, IsBlank c → ¬ (c.isAlphanum ∨ c = '_') := by simp
  have noLetter : ∀ c, IsBlank c → ¬ (c.isAlpha ∨ c = '_') := by simp
  cases spells with
  | whole digits => exact absurd (digits.2 c mem) (noDigit c blank)
  | fraction digits digits' =>
    rcases List.mem_append.mp mem with whole | mem
    · exact absurd (digits.2 c whole) (noDigit c blank)
    · rcases List.mem_cons.mp mem with rfl | places
      · exact absurd blank (by decide)
      · exact absurd (digits'.2 c places) (noDigit c blank)
  | @text inner v quoted => exact .inr ⟨inner, v, rfl, quoted⟩
  | @fixed word kind fixed =>
    have words : ∀ entry ∈ reserved, entry.1.toList.all (¬ IsBlank ·) := by decide
    have marks : ∀ entry ∈ symbols, entry.1.all (¬ IsBlank ·) := by decide
    rcases mem_tables_of_mem_spellings fixed with isWord | isMark
    · exact absurd blank (of_decide_eq_true (List.all_eq_true.mp (words _ isWord) c mem))
    · exact absurd blank (of_decide_eq_true (List.all_eq_true.mp (marks _ isMark) c mem))
  | name start part =>
    rcases List.mem_cons.mp mem with rfl | rest
    · exact absurd start (noLetter c blank)
    · exact absurd (part c rest) (noPart c blank)
  | comment | newline | blanks => exact .inl rfl

/-- A piece that starts with a blank consists of blanks. -/
theorem Spells.blank_of_mem {c : Char} {w : List Char} {p : Piece} (spells : Spells (c :: w) p)
    (blank : IsBlank c) : ∀ d ∈ c :: w, IsBlank d := by
  rcases spells.skipped_or_quoted List.mem_cons_self blank with rfl | ⟨inner, v, same, -⟩
  · generalize text : c :: w = u at spells
    cases spells with
    | comment | newline =>
      obtain ⟨rfl, -⟩ := List.cons.inj text
      exact absurd blank (by decide)
    | blanks _ blanks => exact blanks
  · obtain ⟨rfl, -⟩ := List.cons.inj same
    exact absurd blank (by decide)

/-- What is longer than the first part of a text has the next character in it. -/
theorem prefix_concat_of_longer {c : Char} {w w' cs : List Char} (starts : w' <+: w ++ c :: cs)
    (longer : ¬ w'.length ≤ w.length) : w ++ [c] <+: w' := by
  refine List.prefix_of_prefix_length_le (⟨cs, by simp⟩ : w ++ [c] <+: w ++ c :: cs) starts ?_
  rw [List.length_append, List.length_singleton]
  omega

/-- A run of blanks is taken up to what is no blank. -/
theorem takes_blanks {w cs : List Char} (ne : w ≠ []) (blank : ∀ c ∈ w, IsBlank c)
    (stop : ∀ d ∈ cs.head?, ¬ IsBlank d) : Takes (w ++ cs) w .skipped where
  starts := List.prefix_append w cs
  spells := .blanks ne blank
  longest := by
    intro w' p' starts spells
    by_contra longer
    cases cs with
    | nil =>
      rw [List.append_nil] at starts
      exact longer starts.length_le
    | cons d cs =>
      -- A longer piece has the next character in it.
      obtain ⟨rest, rfl⟩ := prefix_concat_of_longer starts longer
      obtain ⟨c, w, rfl⟩ := List.exists_cons_of_ne_nil ne
      exact stop d rfl (spells.blank_of_mem (blank c List.mem_cons_self) d (by simp))
  prefers := (Spells.takes (.blanks ne blank) (by simp)).prefers

/-- A lexeme does not start with a blank. -/
theorem Takes.not_blank {c : Char} {cs w : List Char} {kind : TokenKind}
    (taken : Takes cs (c :: w) (.token kind)) : ¬ IsBlank c := by
  intro blank
  have means := taken.eq_meaning
  rw [meaning_of_blank blank] at means
  cases means

/-! ## Words -/

/-- What is skipped is no lexeme. -/
theorem Takes.not_skipped {cs w : List Char} {kind : TokenKind} (taken : Takes cs w (.token kind)) :
    ¬ Spells w .skipped := by
  intro skipped
  obtain ⟨-, same⟩ := taken.alone.unique (skipped.takes (by simp))
  cases same

/-- A piece that starts with a quote is a text between quotes. -/
theorem Spells.quoted_of_quote {w : List Char} {p : Piece} (spells : Spells ('"' :: w) p) :
    ∃ inner v, w = inner ++ ['"'] ∧ Quoted inner v := by
  generalize text : '"' :: w = u at spells
  cases spells with
  | @text inner v quoted => exact ⟨inner, v, (List.cons.inj text).2, quoted⟩
  | whole digits =>
    have := digits.2 '"' (text ▸ List.mem_cons_self)
    exact absurd this (by decide)
  | fraction digits digits' =>
    obtain ⟨d, whole, rfl⟩ := List.exists_cons_of_ne_nil digits.1
    obtain ⟨rfl, -⟩ := List.cons.inj text
    exact absurd (digits.2 '"' List.mem_cons_self) (by decide)
  | @fixed word kind fixed =>
    have words : ∀ entry ∈ reserved, entry.1.toList.head? ≠ some '"' := by decide
    have marks : ∀ entry ∈ symbols, entry.1.head? ≠ some '"' := by decide
    have starts : word.toList.head? = some '"' := by rw [← text, List.head?_cons]
    rcases mem_tables_of_mem_spellings fixed with isWord | isMark
    · exact absurd starts (words _ isWord)
    · exact absurd starts (marks _ isMark)
  | name start part =>
    obtain ⟨rfl, -⟩ := List.cons.inj text
    exact absurd start (by decide)
  | comment | newline =>
    obtain ⟨absurd, -⟩ := List.cons.inj text
    cases absurd
  | blanks ne blank =>
    have := blank '"' (text ▸ List.mem_cons_self)
    exact absurd this (by decide)

/-- No literal starts a longer one. -/
theorem Quoted.eq_nil_of_append {inner inner' v v' rest : List Char} (quoted : Quoted inner v)
    (quoted' : Quoted inner' v') (same : inner ++ ['"'] ++ rest = inner' ++ ['"']) : rest = [] := by
  have reach := quoted.textTail_eq rest
  have reach' := quoted'.textTail_eq []
  rw [← List.singleton_append, ← List.append_assoc, same, reach'] at reach
  have lengths := congrArg List.length same
  simp only [List.length_append, List.length_singleton] at lengths
  have := Option.some.inj reach
  exact List.length_eq_zero_iff.mp (by omega)

/-- **A lexeme is taken in front of a blank.** -/
theorem Takes.append_blank {c : Char} {w : List Char} {kind : TokenKind}
    (taken : Takes w w (.token kind)) (blank : IsBlank c) (cs : List Char) :
    Takes (w ++ c :: cs) w (.token kind) where
  starts := List.prefix_append w _
  spells := taken.spells
  longest := by
    intro w' p' starts spells
    by_contra longer
    -- A longer piece has the blank in it, so it is a text or no lexeme.
    obtain ⟨rest, rfl⟩ := prefix_concat_of_longer starts longer
    rcases spells.skipped_or_quoted (c := c) (by simp) blank with rfl | ⟨inner, v, same, quoted⟩
    · refine taken.not_skipped ?_
      generalize text : w ++ [c] ++ rest = u at spells
      obtain ⟨d, w, rfl⟩ := List.exists_cons_of_ne_nil taken.ne_nil
      cases spells with
      | comment line =>
        obtain ⟨rfl, tail⟩ := List.cons.inj text
        cases w with
        | nil =>
          obtain ⟨rfl, -⟩ := List.cons.inj tail
          exact absurd blank (by decide)
        | cons e w =>
          obtain ⟨rfl, rfl⟩ := List.cons.inj tail
          exact .comment fun c mem => line c (by simp [mem])
      | newline =>
        obtain ⟨-, tail⟩ := List.cons.inj text
        simp at tail
      | blanks _ blanks =>
        refine .blanks (List.cons_ne_nil d w) fun e mem => blanks e ?_
        rw [← text]
        exact List.mem_append_left _ (List.mem_append_left _ mem)
    · obtain ⟨d, w, rfl⟩ := List.exists_cons_of_ne_nil taken.ne_nil
      obtain ⟨rfl, tail⟩ := List.cons.inj same
      obtain ⟨inner', v', rfl, quoted'⟩ := taken.spells.quoted_of_quote
      have := quoted'.eq_nil_of_append quoted (by simpa using tail)
      cases this
  prefers := taken.prefers

/-! ## Gaps -/

/-- One more blank in front of what is skipped. -/
theorem Cut.cons_blank {c : Char} {cs rest : List Char} {pieces : List (List Char × Piece)}
    (cut : Cut cs pieces rest) (skipped : ∀ piece ∈ pieces, piece.2 = .skipped) (blank : IsBlank c)
    (stop : ∀ d ∈ rest.head?, ¬ IsBlank d) :
    ∃ pieces', (∀ piece ∈ pieces', piece.2 = .skipped) ∧ Cut (c :: cs) pieces' rest := by
  have alone {cs : List Char} (stop : ∀ d ∈ cs.head?, ¬ IsBlank d) :
      Takes ([c] ++ cs) [c] .skipped :=
    takes_blanks (List.cons_ne_nil c []) (by simpa using blank) stop
  have first {pieces : List (List Char × Piece)} {w : List Char}
      (others : ∀ piece ∈ pieces, piece.2 = .skipped) :
      ∀ piece ∈ (w, Piece.skipped) :: pieces, piece.2 = .skipped :=
    List.forall_mem_cons.mpr ⟨rfl, others⟩
  cases cut with
  | nil => exact ⟨[([c], .skipped)], first (by simp), .cons (alone stop) (.nil cs)⟩
  | @cons w cs _ p pieces taken others =>
    obtain ⟨rfl, skipped'⟩ := List.forall_mem_cons.mp skipped
    cases spelled : taken.spells with
    | comment =>
      exact ⟨_, first skipped, .cons (alone (by simp)) (.cons taken others)⟩
    | newline => exact ⟨_, first skipped, .cons (alone (by simp)) (.cons taken others)⟩
    | blanks ne blanks =>
      -- The blank is taken along with those behind it.
      refine ⟨(c :: w, .skipped) :: pieces, first skipped', .cons (w := c :: w) ?_ others⟩
      refine takes_blanks (by simp) (List.forall_mem_cons.mpr ⟨blank, blanks⟩) fun d here more => ?_
      obtain ⟨cs, rfl⟩ := List.head?_eq_some_iff.mp here
      have longer := taken.longest (w ++ [d]) .skipped ⟨cs, by simp⟩
        (.blanks (by simp) (List.forall_mem_append.mpr ⟨blanks, by simpa using more⟩))
      rw [List.length_append, List.length_singleton] at longer
      exact absurd longer (Nat.not_succ_le_self _)

/-- A line feed in front of what is skipped. -/
theorem Cut.cons_newline {cs rest : List Char} {pieces : List (List Char × Piece)}
    (cut : Cut cs pieces rest) : Cut ('\n' :: cs) ((['\n'], .skipped) :: pieces) rest := by
  have taken : Takes (['\n'] ++ cs) ['\n'] .skipped := takes_newline cs
  exact .cons taken cut

/-- **A gap is skipped**, up to what is no blank. -/
theorem Gap.exists_cut {gap rest : List Char} (h : Gap gap) (stop : ∀ d ∈ rest.head?, ¬ IsBlank d) :
    ∃ pieces, (∀ piece ∈ pieces, piece.2 = .skipped) ∧ Cut (gap ++ rest) pieces rest := by
  induction h with
  | nil => exact ⟨[], by simp, .nil rest⟩
  | blank blank _ ih =>
    obtain ⟨pieces, skipped, cut⟩ := ih
    exact cut.cons_blank skipped blank stop
  | newline _ ih =>
    obtain ⟨pieces, skipped, cut⟩ := ih
    exact ⟨_, List.forall_mem_cons.mpr ⟨rfl, skipped⟩, cut.cons_newline⟩
  | @comment w cs line _ ih =>
    obtain ⟨pieces, skipped, cut⟩ := ih
    have taken := ((Spells.comment line).takes (by simp)).append_newline (cs ++ rest)
    refine ⟨('/' :: '/' :: w, .skipped) :: (['\n'], .skipped) :: pieces, by simpa using skipped, ?_⟩
    rw [List.append_assoc]
    exact .cons taken cut.cons_newline

/-! ## Spaced words -/

/-- **Meanings**: the pieces that give tokens. -/
def meanings (pieces : List (List Char × Piece)) : List (List Char × TokenKind) :=
  pieces.filterMap fun piece =>
    match piece.2 with
    | .skipped => none
    | .token kind => some (piece.1, kind)

theorem meanings_eq_nil {pieces : List (List Char × Piece)}
    (skipped : ∀ piece ∈ pieces, piece.2 = .skipped) : meanings pieces = [] := by
  refine List.filterMap_eq_nil_iff.mpr fun piece mem => ?_
  rw [skipped piece mem]

theorem meanings_append (pieces pieces' : List (List Char × Piece)) :
    meanings (pieces ++ pieces') = meanings pieces ++ meanings pieces' :=
  List.filterMap_append

theorem meanings_token (w : List Char) (kind : TokenKind) (pieces : List (List Char × Piece)) :
    meanings ((w, .token kind) :: pieces) = (w, kind) :: meanings pieces := rfl

theorem mem_of_mem_meanings {pieces : List (List Char × Piece)} {word : List Char × TokenKind}
    (mem : word ∈ meanings pieces) : (word.1, .token word.2) ∈ pieces := by
  obtain ⟨⟨w, p⟩, inside, same⟩ := List.mem_filterMap.mp mem
  cases p with
  | skipped => cases same
  | token kind =>
    cases same
    exact inside

/-- **Spaced words are cut into the words.** -/
theorem Spaced.exists_cut {words : List (List Char × TokenKind)} {text : List Char}
    (taken : ∀ word ∈ words, Takes word.1 word.1 (.token word.2))
    (spaced : Spaced (words.map Prod.fst) text) :
    (∀ d ∈ text.head?, ¬ IsBlank d) ∧
      ∃ pieces, Cut text pieces [] ∧ meanings pieces = words := by
  induction words generalizing text with
  | nil =>
    cases spaced
    exact ⟨by simp, [], .nil [], rfl⟩
  | cons word words ih =>
    obtain ⟨w, kind⟩ := word
    obtain ⟨first, others⟩ := List.forall_mem_cons.mp taken
    rw [List.map_cons] at spaced
    obtain ⟨d, w, rfl⟩ := List.exists_cons_of_ne_nil first.ne_nil
    cases spaced with
    | @cons _ gap text _ between rest =>
      obtain ⟨stop, pieces, cut, same⟩ := ih others rest
      refine ⟨by simpa using first.not_blank, ?_⟩
      rcases between with separator | ⟨rfl, last⟩
      · obtain ⟨skips, skipped, cut'⟩ := separator.gap.exists_cut stop
        have front : Takes (d :: w ++ (gap ++ text)) (d :: w) (.token kind) := by
          cases separator with
          | blank blank _ => exact first.append_blank blank _
          | newline _ => exact first.append_newline _
        refine ⟨_, .cons front (cut'.append cut), ?_⟩
        rw [meanings_token, meanings_append, meanings_eq_nil skipped, same, List.nil_append]
      · rw [last] at rest
        cases rest
        obtain rfl := List.map_eq_nil_iff.mp last
        exact ⟨_, by simpa using first.cut, rfl⟩

/-- **Words in any layout are cut into the words.** -/
theorem Laid.exists_cut {words : List (List Char × TokenKind)} {text : List Char}
    (taken : ∀ word ∈ words, Takes word.1 word.1 (.token word.2))
    (laid : Laid (words.map Prod.fst) text) :
    ∃ pieces, Cut text pieces [] ∧ meanings pieces = words := by
  obtain ⟨gap, body, around, rfl, spaced⟩ := laid
  obtain ⟨stop, pieces, cut, same⟩ := spaced.exists_cut taken
  rcases around with separator | rfl
  · obtain ⟨skips, skipped, cut'⟩ := separator.gap.exists_cut stop
    refine ⟨_, cut'.append cut, ?_⟩
    rw [meanings_append, meanings_eq_nil skipped, same, List.nil_append]
  · exact ⟨pieces, cut, same⟩

/-! ## Tokens without sites -/

/-- What is left of tokens when sites do not count. -/
theorem map_tokens_unplaced (file : String) (p : Position) (pieces : List (List Char × Piece)) :
    (tokens file p pieces).map (Token.mapSites fun _ => .unknown) =
      (meanings pieces).map (fun word => .ofKind word.2 (String.ofList word.1) .unknown) ++
        [.ofKind .endOfStream "" .unknown] := by
  induction pieces generalizing p with
  | nil => rfl
  | cons piece pieces ih =>
    obtain ⟨w, piece⟩ := piece
    cases piece with
    | skipped => exact ih _
    | token kind =>
      rw [tokens, List.map_cons, ih]
      rfl

/-- The lexemes in front of the end token are the words. -/
theorem map_lexeme_tokens (file : String) (p : Position) (pieces : List (List Char × Piece)) :
    (tokens file p pieces).dropLast.map (fun t => t.lexeme.toList) =
      (meanings pieces).map Prod.fst := by
  calc (tokens file p pieces).dropLast.map (fun t => t.lexeme.toList)
      = ((tokens file p pieces).map (Token.mapSites fun _ => .unknown)).dropLast.map
          (fun t => t.lexeme.toList) := by
        rw [← List.map_dropLast, List.map_map]
        rfl
    _ = (meanings pieces).map Prod.fst := by
        rw [map_tokens_unplaced, List.dropLast_concat, List.map_map]
        exact List.map_congr_left fun word _ => String.toList_ofList

end Scan

open Scan

/-- The result of parsing without sites. -/
def unplaced (r : Except ParseError Block) : Except ParseError Block :=
  (r.map (Block.mapSites fun _ => .unknown)).mapError (ParseError.mapSites fun _ => .unknown)

/-- Tokens that differ in their sites only are parsed to what differs in its sites only. -/
theorem unplaced_parse {ts us : List Token}
    (same : ts.map (Token.mapSites fun _ => .unknown) = us.map (Token.mapSites fun _ => .unknown)) :
    unplaced (parse us) = unplaced (parse ts) := by
  let L : Likeness := ⟨True, fun _ => .unknown, False⟩
  have alike : List.Forall₂ L.Alike ts us := by
    have equal := List.forall₂_eq_eq_eq.symm ▸ same
    rw [List.forall₂_map_left_iff, List.forall₂_map_right_iff] at equal
    refine equal.imp fun t u same => ?_
    have kind := congrArg Token.kind same
    have flags := congrArg Token.flags same
    exact ⟨congrArg TokenKind.unnamed kind, flags, fun _ => same⟩
  have both := parseBy_of_alike (L.checks_duplicate? trivial) alike
  rw [parseBy_duplicate?] at both
  cases parsed : parse ts with
  | ok b =>
    obtain ⟨b', parsed', same⟩ := both.1 b parsed
    rw [parsed']
    exact congrArg Except.ok (same trivial).symm
  | error e =>
    rcases both.2 e parsed with ⟨free, -⟩ | ⟨e', parsed', same⟩
    · exact absurd free id
    · rw [parsed']
      exact congrArg Except.error (same trivial).symm

/-- **Layout does not matter.**  The lexemes of a source text in any layout are read as the same
tokens, and parsed to the same tree or to the same error, but for the sites. -/
theorem tokenize_laid {source file : String} {ts : List Token}
    (scanned : tokenize source file = .ok ts) {text : String}
    (laid : Laid (ts.dropLast.map fun t => t.lexeme.toList) text.toList) (file' : String) :
    ∃ us, tokenize text file' = .ok us ∧
      us.map (Token.mapSites fun _ => .unknown) = ts.map (Token.mapSites fun _ => .unknown) ∧
      unplaced (parse us) = unplaced (parse ts) := by
  obtain ⟨pieces, cut, rfl⟩ := tokenize_eq_ok_iff.mp scanned
  rw [map_lexeme_tokens] at laid
  have taken : ∀ word ∈ meanings pieces, Takes word.1 word.1 (.token word.2) :=
    fun word mem => cut.exists_takes _ (mem_of_mem_meanings mem)
  obtain ⟨pieces', cut', same⟩ := laid.exists_cut taken
  have tokens_same : (tokens file .start pieces).map (Token.mapSites fun _ => .unknown) =
      (tokens file' .start pieces').map (Token.mapSites fun _ => .unknown) := by
    rw [map_tokens_unplaced, map_tokens_unplaced, same]
  exact ⟨_, tokenize_eq_ok_iff.mpr ⟨pieces', cut', rfl⟩, tokens_same.symm,
    unplaced_parse tokens_same⟩

/-- The text `;=a` with blanks, line ends and a comment in it. -/
theorem tokenize_laid_of_comment :
    let ts : List Token := [.ofKind (.mark .semicolon) ";" ⟨"f", 1, 1⟩,
      .ofKind (.mark .equals) "=" ⟨"f", 1, 2⟩, .ofKind (.identifier "a") "a" ⟨"f", 1, 3⟩,
      .ofKind .endOfStream "" ⟨"f", 1, 4⟩]
    let text := "\t;\n// ;\n  = a "
    tokenize ";=a" "f" = .ok ts ∧
      Laid (ts.dropLast.map fun t => t.lexeme.toList) text.toList ∧
      ∃ us, tokenize text "g" = .ok us ∧
        us.map (Token.mapSites fun _ => .unknown) = ts.map (Token.mapSites fun _ => .unknown) ∧
        unplaced (parse us) = .error (.cannotParseLine "=" .unknown) := by
  intro ts text
  have scanned : tokenize ";=a" "f" = .ok ts := by decide +kernel
  have laid : Laid (ts.dropLast.map fun t => t.lexeme.toList) text.toList := by
    have gap : Gap ('/' :: '/' :: [' ', ';'] ++ '\n' :: [' ', ' ']) :=
      .comment (by simp) (.blank (by decide) (.blank (by decide) .nil))
    refine ⟨['\t'], [';'] ++ (('\n' :: ('/' :: '/' :: [' ', ';'] ++ '\n' :: [' ', ' '])) ++
      (['='] ++ ([' '] ++ (['a'] ++ ([' '] ++ []))))), .inl (.blank (by decide) .nil), by decide,
      ?_⟩
    exact .cons (.inl (.newline gap)) (.cons (.inl (.blank (by decide) .nil))
      (.cons (.inl (.blank (by decide) .nil)) .nil))
  obtain ⟨us, scanned', same, parsed⟩ := tokenize_laid scanned laid "g"
  exact ⟨scanned, laid, us, scanned', same, parsed.trans (by rfl)⟩

end Scriptlet
