import Scriptlet.Number.Exact
import Scriptlet.Site
import Scriptlet.Text.Quoted
import Scriptlet.Value.DataType

/-!
# Tokens

A token is a piece of source text that the grammar cannot take apart, with its
meaning, its site and a set of flags.

## Main definitions

* `Literal` — the constants of the language
* `TokenKind` — what a token means
* `TokenFlags` — the properties that a listing shows and that the parser consults
* `Token` — kind, text, flags and site
* `Token.text` — a token as listings show it

## Design decisions

* The spellings `&&`, `||` and `!` give the same kinds as the words `and`, `or`
  and `not`; only the lexeme tells them apart.
* Flags follow from the kind (`TokenKind.flags`), but a token has its own copy:
  a caller may set more of them, and the parser looks at the copy.
-/

namespace Scriptlet

/-- **Literal.**  A constant of the language. -/
inductive Literal where
  /-- A number. -/
  | number (value : Number)
  /-- A text, with its escapes resolved. -/
  | text (value : String)
  /-- Written `true` or `false`. -/
  | boolean (value : Bool)
deriving DecidableEq, Inhabited

/-- The data type of a literal. -/
def Literal.dataType : Literal → DataType
  | .number _ => .number
  | .text _ => .text
  | .boolean _ => .boolean

/-- **Keyword**, the names of types apart. -/
inductive Keyword where
  /-- Written `fun`, which may stand in front of the name of a function definition. -/
  | function
  /-- Written `now`, which opens a reassignment. -/
  | now
  /-- Written `if` -/
  | ifWord
  /-- Written `elif` -/
  | elifWord
  /-- Written `else` -/
  | elseWord
  /-- Written `while` -/
  | whileWord
  /-- Written `from`, which opens a counted loop. -/
  | fromWord
  /-- Written `to` -/
  | toWord
  /-- Written `step` -/
  | stepWord
  /-- Written `return` -/
  | returnWord
deriving DecidableEq, Inhabited

/-- **Operator sign.** -/
inductive Sign where
  /-- Written `+` -/
  | plus
  /-- Written `-` -/
  | minus
  /-- Written `*` -/
  | star
  /-- Written `/` -/
  | slash
  /-- Written `%` -/
  | percent
  /-- Written `==` -/
  | equalEqual
  /-- Written `!=` -/
  | bangEqual
  /-- Written `<=` -/
  | lessEqual
  /-- Written `>=` -/
  | greaterEqual
  /-- Written `<` -/
  | less
  /-- Written `>` -/
  | greater
  /-- Written `and`, `&&` -/
  | and
  /-- Written `or`, `||` -/
  | or
  /-- Written `not`, `!` -/
  | not
deriving DecidableEq, Inhabited

/-- **Punctuation mark.** -/
inductive Mark where
  /-- Written `=` -/
  | equals
  /-- Written `(` -/
  | leftParen
  /-- Written `)` -/
  | rightParen
  /-- Written `{` -/
  | leftBrace
  /-- Written `}` -/
  | rightBrace
  /-- Written `[` -/
  | leftBracket
  /-- Written `]` -/
  | rightBracket
  /-- Written `,` -/
  | comma
  /-- Written `;` -/
  | semicolon
deriving DecidableEq, Inhabited

/-- **Token kind.**  What a token means. -/
inductive TokenKind where
  /-- A constant. -/
  | literal (value : Literal)
  /-- The name of a base type. -/
  | typeName (type : BaseType)
  /-- Another keyword. -/
  | keyword (word : Keyword)
  /-- An operator. -/
  | operator (sign : Sign)
  /-- A punctuation mark. -/
  | mark (mark : Mark)
  /-- The name of a variable or of a function. -/
  | identifier (name : String)
  /-- The end of the token list. -/
  | endOfStream
deriving DecidableEq, Inhabited

/-- **Category.**  The broad class of a token. -/
inductive Category where
  /-- A constant. -/
  | literal
  /-- A name. -/
  | identifier
  /-- A keyword, the names of types included. -/
  | keyword
  /-- An operator. -/
  | operator
  /-- A punctuation mark. -/
  | punctuation
  /-- The end of the token list. -/
  | endOfStream
deriving DecidableEq, Inhabited

/-- The name of a category in token listings. -/
def Category.name : Category → String
  | .literal => "Literal"
  | .identifier => "Identifier"
  | .keyword => "Keyword"
  | .operator => "Operator"
  | .punctuation => "Punctuation"
  | .endOfStream => "EndOfStream"

/-- **Flag set.**  Properties of a token. -/
structure TokenFlags where
  /-- An operator. -/
  operator : Bool := false
  /-- An operator that compares. -/
  comparison : Bool := false
  /-- An operator on truth values. -/
  logical : Bool := false
  /-- A reserved word. -/
  keyword : Bool := false
  /-- The name of a type; a statement that starts with it is a declaration. -/
  dataType : Bool := false
  /-- A constant. -/
  literal : Bool := false
  /-- An operator that groups to the left. -/
  leftToRight : Bool := false
  /-- An operator that groups to the right. -/
  rightToLeft : Bool := false
deriving DecidableEq, Inhabited

namespace TokenFlags

/-- The flags that are set in either set. -/
def union (a b : TokenFlags) : TokenFlags where
  operator := a.operator || b.operator
  comparison := a.comparison || b.comparison
  logical := a.logical || b.logical
  keyword := a.keyword || b.keyword
  dataType := a.dataType || b.dataType
  literal := a.literal || b.literal
  leftToRight := a.leftToRight || b.leftToRight
  rightToLeft := a.rightToLeft || b.rightToLeft

/-- The set as a number, with one bit for each flag in the order of the fields. -/
def toBits (f : TokenFlags) : Nat :=
  f.operator.toNat + 2 * f.comparison.toNat + 4 * f.logical.toNat + 8 * f.keyword.toNat +
    16 * f.dataType.toNat + 32 * f.literal.toNat + 64 * f.leftToRight.toNat +
    128 * f.rightToLeft.toNat

/-- The set with the given bits; further bits mean nothing. -/
def ofBits (bits : Nat) : TokenFlags where
  operator := bits.testBit 0
  comparison := bits.testBit 1
  logical := bits.testBit 2
  keyword := bits.testBit 3
  dataType := bits.testBit 4
  literal := bits.testBit 5
  leftToRight := bits.testBit 6
  rightToLeft := bits.testBit 7

end TokenFlags

/-- The flags of an operator. -/
def Sign.flags : Sign → TokenFlags
  | .plus | .minus | .star | .slash | .percent =>
    { operator := true, leftToRight := true }
  | .equalEqual | .bangEqual | .lessEqual | .greaterEqual | .less | .greater =>
    { operator := true, comparison := true, leftToRight := true }
  | .and | .or => { operator := true, logical := true, leftToRight := true }
  | .not => { operator := true, logical := true, rightToLeft := true }

namespace TokenKind

/-- The category of a kind. -/
def category : TokenKind → Category
  | .literal _ => .literal
  | .typeName _ | .keyword _ => .keyword
  | .operator _ => .operator
  | .mark _ => .punctuation
  | .identifier _ => .identifier
  | .endOfStream => .endOfStream

/-- The flags that a kind gives to its tokens. -/
def flags : TokenKind → TokenFlags
  | .literal (.boolean _) => { literal := true, keyword := true }
  | .literal _ => { literal := true }
  | .typeName _ => { keyword := true, dataType := true }
  | .keyword _ => { keyword := true }
  | .operator sign => sign.flags
  | .mark _ | .identifier _ | .endOfStream => {}

end TokenKind

/-- **Token.** -/
structure Token where
  /-- What the token means. -/
  kind : TokenKind
  /-- The source text of the token. -/
  lexeme : String
  /-- The flags of the token. -/
  flags : TokenFlags
  /-- Where the token starts. -/
  site : Site
deriving DecidableEq, Inhabited

namespace Token

/-- The token of a kind, with the flags of that kind. -/
def ofKind (kind : TokenKind) (lexeme : String) (site : Site) : Token :=
  ⟨kind, lexeme, kind.flags, site⟩

/-- Sets further flags. -/
def addFlags (t : Token) (flags : TokenFlags) : Token :=
  { t with flags := t.flags.union flags }

/-- A token as listings show it: its site, its category and its quoted text. -/
def text (t : Token) : String :=
  t.site.text ++ " " ++ t.kind.category.name ++ " " ++ Text.quoted t.lexeme

end Token

end Scriptlet
