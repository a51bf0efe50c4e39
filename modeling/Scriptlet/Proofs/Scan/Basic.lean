import Mathlib.Data.List.Basic
import Mathlib.Data.List.TakeWhile
import Scriptlet.Token.Scan

/-!
# Maximal munch

The lexical rules of the language, each as the set of pieces that it spells, and
the process of taking the longest such piece over and over.  Neither the lengths
nor the tables of the scanner are used to say what these are.

## Main definitions

* `Scan.spellings` — how the kinds with fixed spellings are written
* `Scan.Quoted` — what may stand between the quotes of a text literal
* `Scan.Spells` — the pieces of the language and what they mean
* `Scan.Takes` — the piece that maximal munch takes at the start of a text
* `Scan.Cut` — a text taken apart from left to right
* `Scan.Stuck` — a text that no piece starts
* `Scan.tokens` — the tokens of a sequence of pieces

## Main statements

* `Scan.Takes.unique` — maximal munch leaves no choice
* `Scan.Cut.unique` — so there is one way to cut a text until no rule applies

## Design decisions

* Reserved words are names too, and `Spells` says so.  It is `Takes` that prefers
  the fixed spelling.
* Among the pieces of one length at one place this is the only choice to make.
  `Spells.eq_meaning` says so: apart from reserved words, the first character of a
  piece decides by which rule it is read.
* The tables of the scanner lead from spellings to kinds, and `spellings` from kinds
  to spellings.  `mem_tables_of_mem_spellings` says that they agree.
* The sequence of a cut keeps the pieces that give no token, so that a text is the
  concatenation of what it was cut into.
-/

namespace Scriptlet

namespace Scan

/-! ## Rules -/

/-- How a word of the language is written. -/
def keywordSpelling : Keyword → String
  | .function => "fun"
  | .now => "now"
  | .ifWord => "if"
  | .elifWord => "elif"
  | .elseWord => "else"
  | .whileWord => "while"
  | .fromWord => "from"
  | .toWord => "to"
  | .stepWord => "step"
  | .returnWord => "return"

/-- How an operator is written: the logical ones as words or as signs. -/
def signSpellings : Sign → List String
  | .plus => ["+"]
  | .minus => ["-"]
  | .star => ["*"]
  | .slash => ["/"]
  | .percent => ["%"]
  | .equalEqual => ["=="]
  | .bangEqual => ["!="]
  | .lessEqual => ["<="]
  | .greaterEqual => [">="]
  | .less => ["<"]
  | .greater => [">"]
  | .and => ["and", "&&"]
  | .or => ["or", "||"]
  | .not => ["not", "!"]

/-- How a punctuation mark is written. -/
def markSpelling : Mark → String
  | .equals => "="
  | .leftParen => "("
  | .rightParen => ")"
  | .leftBrace => "\x7b"
  | .rightBrace => "\x7d"
  | .leftBracket => "["
  | .rightBracket => "]"
  | .comma => ","
  | .semicolon => ";"

/-- **Fixed spellings** of a kind.  Numbers, texts and names have none, and the end
of a text has no spelling at all. -/
def spellings : TokenKind → List String
  | .literal (.boolean true) => ["true"]
  | .literal (.boolean false) => ["false"]
  | .typeName .num => ["num"]
  | .typeName .str => ["str"]
  | .typeName .bool => ["bool"]
  | .typeName .void => ["void"]
  | .keyword word => [keywordSpelling word]
  | .operator sign => signSpellings sign
  | .mark mark => [markSpelling mark]
  | .literal (.number _) | .literal (.text _) | .identifier _ | .endOfStream => []

/-- A number without a point, or a side of the point. -/
def IsDigits (w : List Char) : Prop := w ≠ [] ∧ ∀ c ∈ w, c.isDigit

/-- The character that a backslash and `c` stand for. -/
def escaped : Char → Char
  | 'n' => '\n'
  | 't' => '\t'
  | c => c

/-- **Quoted text.**  The first argument is what a literal has between its quotes,
the second the text that this means. -/
inductive Quoted : List Char → List Char → Prop where
  | nil : Quoted [] []
  | plain {c : Char} {w v : List Char} (quote : c ≠ '"') (backslash : c ≠ '\\')
      (newline : c ≠ '\n') (rest : Quoted w v) : Quoted (c :: w) (c :: v)
  | escape {c : Char} {w v : List Char} (newline : c ≠ '\n') (rest : Quoted w v) :
      Quoted ('\\' :: c :: w) (escaped c :: v)

/-- **Spelling.**  A rule of the language matches the whole of the first argument
and reads it as the second. -/
inductive Spells : List Char → Piece → Prop where
  | whole {w : List Char} (digits : IsDigits w) :
      Spells w (.token (.literal (.number (Number.ofDecimal (Nat.ofDigitChars 10 w 0) 0))))
  | fraction {w places : List Char} (digits : IsDigits w) (digits' : IsDigits places) :
      Spells (w ++ '.' :: places)
        (.token (.literal (.number
          (Number.ofDecimal (Nat.ofDigitChars 10 (w ++ places) 0) places.length))))
  | text {w v : List Char} (inner : Quoted w v) :
      Spells ('"' :: w ++ ['"']) (.token (.literal (.text (String.ofList v))))
  | fixed {word : String} {kind : TokenKind} (mem : word ∈ spellings kind) :
      Spells word.toList (.token kind)
  | name {c : Char} {w : List Char} (start : c.isAlpha ∨ c = '_')
      (part : ∀ d ∈ w, d.isAlphanum ∨ d = '_') :
      Spells (c :: w) (.token (.identifier (String.ofList (c :: w))))
  | comment {w : List Char} (line : ∀ c ∈ w, c ≠ '\n') : Spells ('/' :: '/' :: w) .skipped
  | newline : Spells ['\n'] .skipped
  | blanks {w : List Char} (ne : w ≠ []) (blank : ∀ c ∈ w, c ∈ [' ', '\t', '\r', '\x0c']) :
      Spells w .skipped

/-! ## Maximal munch -/

/-- **Taking a piece.**  Of the pieces that a text starts with, maximal munch takes
the longest; what has a fixed spelling is not taken for a name. -/
structure Takes (cs w : List Char) (p : Piece) : Prop where
  /-- The piece stands at the start of the text. -/
  starts : w <+: cs
  /-- A rule reads it. -/
  spells : Spells w p
  /-- No rule reads more. -/
  longest : ∀ w' p', w' <+: cs → Spells w' p' → w'.length ≤ w.length
  /-- A fixed spelling beats a name. -/
  prefers : ∀ word kind, word ∈ spellings kind → word.toList = w → p = .token kind

/-- **Cutting.**  Pieces are taken from the front of a text until a rest is left. -/
inductive Cut : List Char → List (List Char × Piece) → List Char → Prop where
  | nil (cs : List Char) : Cut cs [] cs
  | cons {w cs rest : List Char} {p : Piece} {pieces : List (List Char × Piece)}
      (first : Takes (w ++ cs) w p) (others : Cut cs pieces rest) :
      Cut (w ++ cs) ((w, p) :: pieces) rest

/-- No rule matches at the start of the text. -/
def Stuck (cs : List Char) : Prop := ∀ w p, Spells w p → ¬ w <+: cs

/-- **Tokens of pieces**, the first of which starts at position `p`.  What is
skipped only moves the position. -/
def tokens (file : String) : Position → List (List Char × Piece) → List Token
  | p, [] => [⟨.endOfStream, "", {}, .ofPosition file p⟩]
  | p, (w, .skipped) :: pieces => tokens file (p.advanceBy w) pieces
  | p, (w, .token kind) :: pieces =>
    ⟨kind, String.ofList w, kind.flags, .ofPosition file p⟩ :: tokens file (p.advanceBy w) pieces

/-! ## The tables of the scanner -/

theorem mem_spellings_of_mem_reserved {word : String} {kind : TokenKind}
    (mem : (word, kind) ∈ reserved) : word ∈ spellings kind := by
  have table : ∀ entry ∈ reserved, entry.1 ∈ spellings entry.2 := by decide
  exact table _ mem

theorem mem_spellings_of_mem_symbols {w : List Char} {kind : TokenKind}
    (mem : (w, kind) ∈ symbols) : String.ofList w ∈ spellings kind := by
  have table : ∀ entry ∈ symbols, String.ofList entry.1 ∈ spellings entry.2 := by decide
  exact table _ mem

/-- Every fixed spelling stands in one of the tables, with its kind. -/
theorem mem_tables_of_mem_spellings {word : String} {kind : TokenKind}
    (mem : word ∈ spellings kind) :
    (word, kind) ∈ reserved ∨ (word.toList, kind) ∈ symbols := by
  have table : ∀ word ∈ spellings kind,
      (word, kind) ∈ reserved ∨ (word.toList, kind) ∈ symbols := by
    cases kind with
    | literal value =>
      cases value with
      | boolean value => cases value <;> decide
      | number | text => simp [spellings]
    | typeName type => cases type <;> decide
    | keyword word => cases word <;> decide
    | operator sign => cases sign <;> decide
    | mark mark => cases mark <;> decide
    | identifier | endOfStream => simp [spellings]
  exact table word mem

theorem mem_reserved_of_lookup {word : String} {kind : TokenKind}
    (found : reserved.lookup word = some kind) : (word, kind) ∈ reserved := by
  obtain ⟨before, after, table, -⟩ := List.lookup_eq_some_iff.mp found
  rw [table]
  exact List.mem_append_right before List.mem_cons_self

/-! ## What a piece means -/

/-- A digit cannot start a name. -/
theorem isDigit_of_isNameStart {c : Char} (start : isNameStart c) : c.isDigit = false := by
  have : c.isAlpha ∨ c = '_' := by simpa [isNameStart] using start
  rcases this with letter | rfl
  · change (decide (65 ≤ c.val ∧ c.val ≤ 90) || decide (97 ≤ c.val) && decide (c.val ≤ 122)) = true
      at letter
    show (decide (48 ≤ c.val) && decide (c.val ≤ 57)) = false
    grind
  · rfl

theorem ne_point_of_isDigit {c : Char} (digit : c.isDigit) : c ≠ '.' := by
  rintro rfl
  exact absurd digit (by decide)

theorem digitsValue_eq {w : List Char} (digits : ∀ c ∈ w, c.isDigit) :
    digitsValue w = Nat.ofDigitChars 10 w 0 :=
  List.foldl_ext _ _ _ fun _ c mem => if_pos (digits c mem)

theorem numberValue_whole {w : List Char} (digits : ∀ c ∈ w, c.isDigit) :
    numberValue w = Number.ofDecimal (Nat.ofDigitChars 10 w 0) 0 := by
  have point : w.dropWhile (· != '.') = [] :=
    List.dropWhile_eq_nil_iff.mpr fun c mem => by simpa using ne_point_of_isDigit (digits c mem)
  rw [numberValue, digitsValue_eq digits, point]
  rfl

theorem numberValue_fraction {w places : List Char} (digits : ∀ c ∈ w, c.isDigit)
    (digits' : ∀ c ∈ places, c.isDigit) :
    numberValue (w ++ '.' :: places) =
      Number.ofDecimal (Nat.ofDigitChars 10 (w ++ places) 0) places.length := by
  have point : (w ++ '.' :: places).dropWhile (· != '.') = '.' :: places := by
    rw [List.dropWhile_append_of_pos]
    · rfl
    · intro c mem
      simpa using ne_point_of_isDigit (digits c mem)
  have value : digitsValue (w ++ '.' :: places) = digitsValue (w ++ places) := by
    simp [digitsValue]
  have all : ∀ c ∈ w ++ places, c.isDigit := by
    intro c mem
    rcases List.mem_append.mp mem with mem | mem
    · exact digits c mem
    · exact digits' c mem
  rw [numberValue, value, digitsValue_eq all, point]
  rfl

theorem unescape_backslash (c : Char) (w : List Char) :
    unescape ('\\' :: c :: w) = escaped c :: unescape w := by
  by_cases n : c = 'n'
  · subst n
    rw [unescape, escaped]
  by_cases t : c = 't'
  · subst t
    rw [unescape, escaped]
  rw [unescape, escaped] <;> assumption

/-- Resolving escapes gives what a quoted text means. -/
theorem Quoted.unescape_eq {w v : List Char} (inner : Quoted w v) : unescape w = v := by
  induction inner with
  | nil => rfl
  | plain quote backslash newline rest ih =>
    rw [unescape, ih]
    all_goals
      intros
      contradiction
  | escape newline rest ih => rw [unescape_backslash, ih]

theorem Quoted.textValue_eq {w v : List Char} (inner : Quoted w v) :
    textValue ('"' :: w ++ ['"']) = String.ofList v := by
  rw [textValue, List.cons_append, List.drop_one, List.tail_cons, List.dropLast_concat,
    inner.unescape_eq]

/-- The meaning of a piece, read off its first character. -/
def meaning : List Char → Piece
  | [] => .skipped
  | c :: w =>
    if c.isDigit then .token (.literal (.number (numberValue (c :: w))))
    else if c = '"' then .token (.literal (.text (textValue (c :: w))))
    else if isNameStart c then .token (wordMeaning (c :: w))
    else ((symbols.lookup (c :: w)).map Piece.token).getD .skipped

/-- What has a fixed spelling means the kind that has it. -/
theorem meaning_of_mem_spellings {word : String} {kind : TokenKind}
    (mem : word ∈ spellings kind) : meaning word.toList = .token kind := by
  have words : ∀ entry ∈ reserved, meaning entry.1.toList = .token entry.2 := by decide
  have marks : ∀ entry ∈ symbols, meaning entry.1 = .token entry.2 := by decide
  rcases mem_tables_of_mem_spellings mem with word | mark
  · exact words _ word
  · exact marks _ mark

/-- What starts as a name means what the word means. -/
theorem meaning_of_isNameStart {c : Char} (start : isNameStart c) (w : List Char) :
    meaning (c :: w) = .token (wordMeaning (c :: w)) := by
  have quote : c ≠ '"' := by
    rintro rfl
    exact absurd start (by decide)
  rw [meaning, if_neg (by simp [isDigit_of_isNameStart start]), if_neg quote, if_pos start]

theorem meaning_of_blank {c : Char} (blank : c ∈ [' ', '\t', '\r', '\x0c']) (w : List Char) :
    meaning (c :: w) = .skipped := by
  simp only [List.mem_cons, List.not_mem_nil, or_false] at blank
  rcases blank with rfl | rfl | rfl | rfl
  all_goals rfl

/-- A piece means what its first character says, unless it has a fixed spelling but
was read as a name. -/
theorem Spells.eq_meaning {w : List Char} {p : Piece} (spells : Spells w p)
    (free : ∀ kind, String.ofList w ∈ spellings kind →
      p ≠ .token (.identifier (String.ofList w))) :
    p = meaning w := by
  cases spells with
  | whole digits =>
    obtain ⟨ne, digits⟩ := digits
    obtain ⟨c, w, rfl⟩ := List.exists_cons_of_ne_nil ne
    rw [meaning, if_pos (digits c List.mem_cons_self), numberValue_whole digits]
  | @fraction w places digits digits' =>
    obtain ⟨ne, digits⟩ := digits
    obtain ⟨c, w, rfl⟩ := List.exists_cons_of_ne_nil ne
    rw [← numberValue_fraction digits digits'.2]
    show _ = meaning (c :: (w ++ '.' :: places))
    rw [meaning, if_pos (digits c List.mem_cons_self), List.cons_append]
  | text inner =>
    rw [← inner.textValue_eq]
    rfl
  | fixed mem => exact (meaning_of_mem_spellings mem).symm
  | @name c w start part =>
    rw [meaning_of_isNameStart (by simpa [isNameStart] using start), wordMeaning]
    -- Only a word that stands in the table means something else than its name.
    cases found : reserved.lookup (String.ofList (c :: w)) with
    | none => rfl
    | some kind =>
      have entry := mem_spellings_of_mem_reserved (mem_reserved_of_lookup found)
      exact absurd rfl (free kind entry)
  | comment line => rfl
  | newline => rfl
  | blanks ne blank =>
    obtain ⟨c, w, rfl⟩ := List.exists_cons_of_ne_nil ne
    exact (meaning_of_blank (blank c List.mem_cons_self) w).symm

/-- No rule spells the empty piece. -/
theorem Spells.ne_nil {w : List Char} {p : Piece} (spells : Spells w p) : w ≠ [] := by
  cases spells with
  | whole digits => exact digits.1
  | fixed mem =>
    have words : ∀ entry ∈ reserved, entry.1.toList ≠ [] := by decide
    have marks : ∀ entry ∈ symbols, entry.1 ≠ [] := by decide
    rcases mem_tables_of_mem_spellings mem with word | mark
    · exact words _ word
    · exact marks _ mark
  | blanks ne blank => exact ne
  | fraction | text | name | comment | newline => simp

/-- Only the end of a text gives the end token. -/
theorem Spells.ne_endOfStream {w : List Char} {p : Piece} (spells : Spells w p) :
    p ≠ .token .endOfStream := by
  cases spells with
  | fixed mem =>
    intro eq
    cases eq
    exact absurd mem List.not_mem_nil
  | whole | fraction | text | name | comment | newline | blanks => simp

/-! ## No choice -/

theorem Takes.eq_meaning {cs w : List Char} {p : Piece} (taken : Takes cs w p) :
    p = meaning w := by
  refine taken.spells.eq_meaning ?_
  intro kind mem named
  rw [taken.prefers _ kind mem String.toList_ofList] at named
  cases named
  exact absurd mem List.not_mem_nil

/-- **Maximal munch leaves no choice.** -/
theorem Takes.unique {cs w w' : List Char} {p p' : Piece} (first : Takes cs w p)
    (second : Takes cs w' p') : w = w' ∧ p = p' := by
  -- Of two prefixes of one text, each at least as long as the other.
  have same : w = w' :=
    (List.prefix_of_prefix_length_le first.starts second.starts
      (second.longest w p first.starts first.spells)).eq_of_length_le
        (first.longest w' p' second.starts second.spells)
  subst same
  exact ⟨rfl, first.eq_meaning.trans second.eq_meaning.symm⟩

theorem Takes.ne_nil {cs w : List Char} {p : Piece} (taken : Takes cs w p) : w ≠ [] :=
  taken.spells.ne_nil

theorem stuck_nil : Stuck [] := fun _ _ spells starts =>
  spells.ne_nil (List.prefix_nil.mp starts)

/-- A text is the concatenation of what it was cut into. -/
theorem Cut.eq_append {cs rest : List Char} {pieces : List (List Char × Piece)}
    (cut : Cut cs pieces rest) : cs = pieces.flatMap Prod.fst ++ rest := by
  induction cut with
  | nil cs => rfl
  | cons first others ih => rw [List.flatMap_cons, List.append_assoc, ← ih]

theorem Cut.ne_endOfStream {cs rest : List Char} {pieces : List (List Char × Piece)}
    (cut : Cut cs pieces rest) : ∀ piece ∈ pieces, piece.2 ≠ .token .endOfStream := by
  induction cut with
  | nil cs => simp
  | cons first others ih => exact List.forall_mem_cons.mpr ⟨first.spells.ne_endOfStream, ih⟩

/-- There is one way to cut a text until no rule applies. -/
theorem Cut.unique {cs rest rest' : List Char} {pieces pieces' : List (List Char × Piece)}
    (cut : Cut cs pieces rest) (stuck : Stuck rest) (cut' : Cut cs pieces' rest')
    (stuck' : Stuck rest') : pieces = pieces' ∧ rest = rest' := by
  induction cut generalizing pieces' with
  | nil cs =>
    -- A cut that stops here must not go on there, since nothing can be taken.
    cases cut' with
    | nil => exact ⟨rfl, rfl⟩
    | cons first others => exact absurd first.starts (stuck _ _ first.spells)
  | @cons w cs rest p pieces first others ih =>
    -- The other cut takes apart the same text, but not by the same `++`.
    generalize whole : w ++ cs = text at cut' first
    cases cut' with
    | nil => exact absurd first.starts (stuck' _ _ first.spells)
    | @cons w' cs' _ p' pieces' first' others' =>
      obtain ⟨rfl, rfl⟩ := first.unique first'
      obtain rfl := List.append_cancel_left whole
      obtain ⟨rfl, rfl⟩ := ih stuck others'
      exact ⟨rfl, rfl⟩

end Scan

end Scriptlet
