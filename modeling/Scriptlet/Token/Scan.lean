import Scriptlet.Error.Lex
import Scriptlet.Token.Basic

/-!
# From text to tokens

Source text is cut into pieces from left to right.  At each position every rule
is tried, and the longest piece that any of them matches is taken.

## Main definitions

* `Scan.Rule` — how long a piece a rule matches, and what that piece means
* `Scan.rules` — the rules of the language
* `Scan.piece?` — the longest piece at the start of a text
* `tokenize` — the tokens of a source text

## Design decisions

* A rule is a function that gives the length of its longest match, zero if it
  does not match.  No rule matches the empty piece, so zero is not ambiguous.
* Names and reserved words are one rule: a reserved word is a name that stands in
  the table `reserved`, so a name that only begins with one stays a name.
* Of rules that match equally far the first one wins.  No two rules of `rules`
  match the same piece, so the order does not show.
* Comments, line ends and blanks are pieces like any other; they just give no
  token.
* A text has no piece longer than itself and no piece is empty, so the length of
  the source bounds the number of pieces.
-/

namespace Scriptlet

namespace Scan

/-- **Piece.**  What a matched piece of text means. -/
inductive Piece where
  /-- A token of the given kind. -/
  | token (kind : TokenKind)
  /-- A comment, a line end or blanks. -/
  | skipped
deriving DecidableEq

/-- **Rule.** -/
structure Rule where
  /-- The length of the longest match at the start of a text, or zero. -/
  length : List Char → Nat
  /-- What a matched piece means. -/
  meaning : List Char → Piece

/-! ### Numbers -/

/-- How many decimal digits a text starts with. -/
def digitCount (cs : List Char) : Nat :=
  (cs.takeWhile Char.isDigit).length

/-- The length of a number: digits, and behind a point more digits.  A point
without a digit behind it does not belong to the number. -/
def numberLength (cs : List Char) : Nat :=
  let whole := digitCount cs
  if whole = 0 then 0
  else
    match cs.drop whole with
    | '.' :: rest =>
      let places := digitCount rest
      if places = 0 then whole else whole + 1 + places
    | _ => whole

/-- The value of a run of decimal digits; other characters are passed over. -/
def digitsValue (cs : List Char) : Nat :=
  cs.foldl (fun n c => if c.isDigit then 10 * n + (c.toNat - 48) else n) 0

/-- The number that a piece of digits and at most one point spells. -/
def numberValue (cs : List Char) : Number :=
  Number.ofDecimal (digitsValue cs) ((cs.dropWhile (· != '.')).length - 1)

/-! ### Texts -/

/-- The length of the rest of a text literal, closing quote included.  A
backslash takes the next character along; neither it nor anything else reaches
over a line end. -/
def textTail : List Char → Option Nat
  | [] => none
  | '"' :: _ => some 1
  | '\n' :: _ => none
  | '\\' :: [] => none
  | '\\' :: '\n' :: _ => none
  | '\\' :: _ :: rest => (textTail rest).map (· + 2)
  | _ :: rest => (textTail rest).map (· + 1)

/-- The length of a text literal. -/
def textLength : List Char → Nat
  | '"' :: rest => ((textTail rest).map (· + 1)).getD 0
  | _ => 0

/-- Resolves escapes: a backslash with `n` is a line feed and with `t` a tab,
and with any other character that character. -/
def unescape : List Char → List Char
  | [] => []
  | ['\\'] => []
  | '\\' :: 'n' :: rest => '\n' :: unescape rest
  | '\\' :: 't' :: rest => '\t' :: unescape rest
  | '\\' :: c :: rest => c :: unescape rest
  | c :: rest => c :: unescape rest

/-- The text that a literal spells: what stands between its quotes, with the
escapes resolved. -/
def textValue (cs : List Char) : String :=
  String.ofList (unescape (cs.drop 1).dropLast)

/-! ### Words -/

/-- Whether `c` can start a name: an ASCII letter or an underscore. -/
def isNameStart (c : Char) : Bool := c.isAlpha || c == '_'

/-- Whether `c` can go on in a name: an ASCII letter or digit or an underscore. -/
def isNamePart (c : Char) : Bool := c.isAlphanum || c == '_'

/-- The length of a name or a reserved word. -/
def wordLength : List Char → Nat
  | c :: rest => if isNameStart c then 1 + (rest.takeWhile isNamePart).length else 0
  | [] => 0

/-- **Reserved words** and what they mean. -/
def reserved : List (String × TokenKind) :=
  [("true", .literal (.boolean true)), ("false", .literal (.boolean false)),
    ("num", .typeName .num), ("str", .typeName .str),
    ("bool", .typeName .bool), ("void", .typeName .void),
    ("fun", .keyword .function), ("now", .keyword .now),
    ("if", .keyword .ifWord), ("elif", .keyword .elifWord), ("else", .keyword .elseWord),
    ("while", .keyword .whileWord),
    ("from", .keyword .fromWord), ("to", .keyword .toWord), ("step", .keyword .stepWord),
    ("return", .keyword .returnWord),
    ("and", .operator .and), ("or", .operator .or), ("not", .operator .not)]

/-- What a word means: its entry among the reserved words, or else a name. -/
def wordMeaning (cs : List Char) : TokenKind :=
  let word := String.ofList cs
  (reserved.lookup word).getD (.identifier word)

/-! ### Signs and marks -/

/-- **Signs and marks** and what they mean. -/
def symbols : List (List Char × TokenKind) :=
  [(['&', '&'], .operator .and), (['|', '|'], .operator .or), (['!'], .operator .not),
    (['+'], .operator .plus), (['-'], .operator .minus), (['*'], .operator .star),
    (['/'], .operator .slash), (['%'], .operator .percent),
    (['=', '='], .operator .equalEqual), (['!', '='], .operator .bangEqual),
    (['<', '='], .operator .lessEqual), (['>', '='], .operator .greaterEqual),
    (['<'], .operator .less), (['>'], .operator .greater),
    (['='], .mark .equals),
    (['('], .mark .leftParen), ([')'], .mark .rightParen),
    (['\x7b'], .mark .leftBrace), (['\x7d'], .mark .rightBrace),
    (['['], .mark .leftBracket), ([']'], .mark .rightBracket),
    ([','], .mark .comma), ([';'], .mark .semicolon)]

/-- The rule that matches exactly the characters `spelling`. -/
def symbolRule (spelling : List Char) (kind : TokenKind) : Rule where
  length cs := if spelling.isPrefixOf cs then spelling.length else 0
  meaning _ := .token kind

/-! ### What is skipped -/

/-- The length of a comment: two slashes and the rest of the line. -/
def commentLength : List Char → Nat
  | '/' :: '/' :: rest => 2 + (rest.takeWhile (· != '\n')).length
  | _ => 0

/-- The length of a line end. -/
def lineEndLength : List Char → Nat
  | '\n' :: _ => 1
  | _ => 0

/-- Whether `c` is a blank: a space, a tab, a carriage return or a form feed. -/
def isBlank (c : Char) : Bool :=
  c == ' ' || c == '\t' || c == '\r' || c == '\x0c'

/-- The length of a run of blanks. -/
def blankLength (cs : List Char) : Nat :=
  (cs.takeWhile isBlank).length

/-! ### The longest match -/

/-- **Rules of the language.** -/
def rules : List Rule :=
  [⟨numberLength, fun cs => .token (.literal (.number (numberValue cs)))⟩,
    ⟨textLength, fun cs => .token (.literal (.text (textValue cs)))⟩,
    ⟨wordLength, fun cs => .token (wordMeaning cs)⟩,
    ⟨commentLength, fun _ => .skipped⟩,
    ⟨lineEndLength, fun _ => .skipped⟩,
    ⟨blankLength, fun _ => .skipped⟩] ++
  symbols.map fun entry => symbolRule entry.1 entry.2

/-- The rule among `rs` that matches furthest into `cs`, with the length of its
match; the first one of several. -/
def longest (cs : List Char) : List Rule → Option (Nat × Rule)
  | [] => none
  | r :: rs =>
    match longest cs rs with
    | some (n, best) => if n ≤ r.length cs then some (r.length cs, r) else some (n, best)
    | none => if r.length cs = 0 then none else some (r.length cs, r)

/-- **The longest piece** at the start of `cs`: its length and its meaning.
`none` if no rule matches. -/
def piece? (cs : List Char) : Option (Nat × Piece) :=
  (longest cs rules).map fun (n, r) => (n, r.meaning (cs.take n))

/-- The error at a position where no rule matches. -/
def failure (file : String) (p : Position) (c : Char) : LexError :=
  let site := Site.ofPosition file p
  if c = '"' then .unterminatedText site
  else .unscannableCharacter (String.singleton c) site

/-- The token that marks the end of the text. -/
def endToken (file : String) (p : Position) : Token :=
  .ofKind .endOfStream "" (.ofPosition file p)

/-- **Scanning.**  The tokens of `cs`, which starts at position `p`.  The bound
on the number of pieces is reached only at the end of the text. -/
def scan (file : String) : Nat → Position → List Char → Except LexError (List Token)
  | 0, p, _ => .ok [endToken file p]
  | _ + 1, p, [] => .ok [endToken file p]
  | bound + 1, p, c :: cs =>
    match piece? (c :: cs) with
    | none => .error (failure file p c)
    | some (n, piece) =>
      let lexeme := (c :: cs).take n
      let rest := scan file bound (p.advanceBy lexeme) ((c :: cs).drop n)
      match piece with
      | .skipped => rest
      | .token kind =>
        rest.map (Token.ofKind kind (String.ofList lexeme) (.ofPosition file p) :: ·)

end Scan

/-- **Tokens of a source text**, closed by the end token, or the error at the
first position where no rule matches. -/
def tokenize (source file : String) : Except LexError (List Token) :=
  let cs := source.toList
  Scan.scan file cs.length .start cs

end Scriptlet
