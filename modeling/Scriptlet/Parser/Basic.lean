import Scriptlet.Error.Parse
import Scriptlet.Event
import Scriptlet.Tree.Basic

/-!
# Parsing: tokens, names and lists

The parser reads a token list from the front and keeps a log.  It never goes
back: what it does next depends on the next token, at two places on the one
behind that.

## Main definitions

* `Cursor`, `Parser` — the state of the parser and its monad
* `Parser.peek`, `Parser.advance`, `Parser.expect` — the next token
* `Parser.typeSpec`, `Parser.identifier` — types and names
* `Parser.separated` — items between commas up to a closing bracket

## Design decisions

* The state is kept on errors, so that the log tells what happened before one.
* Recursion is bounded by a number that is at least the number of tokens left.
  Every recursive call has consumed a token, so the bound is zero only when no
  token is left, and then the answer is the one for an empty list: the input
  ended (`Parser.exhausted`).
* A token list normally ends with an end token, and nothing consumes that.  A list
  without one is allowed; running off its end is an error at an unknown site.
-/

namespace Scriptlet

/-- **Cursor.**  The tokens that are left and the log so far. -/
structure Cursor where
  /-- The tokens that are left. -/
  tokens : List Token
  /-- The log. -/
  log : Log

/-- **Parser.**  Consumes tokens and gives a result or an error. -/
abbrev Parser := EStateM ParseError Cursor

namespace Parser

/-- What every parser does when no token is left. -/
def exhausted {α : Type} : Parser α :=
  throw (.endOfInput .unknown)

/-- The next token, which stays. -/
def peek : Parser Token := fun c =>
  match c.tokens with
  | t :: _ => .ok t c
  | [] => .error (.endOfInput .unknown) c

/-- The kind of the token behind the next one. -/
def peekSecond? : Parser (Option TokenKind) := fun c =>
  .ok ((c.tokens.drop 1).head?.map Token.kind) c

/-- Consumes the next token. -/
def advance : Parser Unit := fun c =>
  .ok () { c with tokens := c.tokens.drop 1 }

/-- Adds an event to the log. -/
def note (e : Event) : Parser Unit := fun c =>
  .ok () { c with log := c.log.add e }

/-- The error at a token that does not fit. -/
def unexpected (t : Token) (expected : String) : ParseError :=
  if t.kind = .endOfStream then .endOfInput t.site
  else .unexpectedToken expected t.lexeme t.site

/-- Consumes the next token, which has to be of the given kind. -/
def expect (kind : TokenKind) (expected : String) : Parser Token := do
  let t ← peek
  if t.kind = kind then
    advance
    return t
  else throw (unexpected t expected)

/-- Consumes a name; gives it with its site. -/
def identifier : Parser (String × Site) := do
  let t ← peek
  match t.kind with
  | .identifier name =>
    advance
    return (name, t.site)
  | _ => throw (unexpected t "a name")

/-- Consumes the name of a type and a `[]` behind it. -/
def typeSpec : Parser DeclaredType := do
  let t ← peek
  match t.kind with
  | .typeName base =>
    advance
    let next ← peek
    if next.kind = .mark .leftBracket then
      advance
      let _ ← expect (.mark .rightBracket) "']' to close the array marker"
      return ⟨base, true⟩
    else return ⟨base, false⟩
  | _ => throw (unexpected t "a data type")

/-- What can follow an item of a list. -/
def separatorText (closing : Mark) : String :=
  if closing = .rightBracket then "',' or ']'" else "',' or ')'"

/-- One item and what follows it, up to the closing bracket. -/
def items {α : Type} (item : Parser α) (closing : Mark) : Nat → Parser (List α)
  | 0 => exhausted
  | bound + 1 => do
    let x ← item
    let t ← peek
    if t.kind = .mark .comma then
      advance
      let xs ← items item closing bound
      return x :: xs
    else if t.kind = .mark closing then
      advance
      return [x]
    else throw (unexpected t (separatorText closing))

/-- **List of items** between commas.  The closing bracket is consumed; a list
may be empty, but a comma needs an item behind it. -/
def separated {α : Type} (item : Parser α) (closing : Mark) (bound : Nat) :
    Parser (List α) := do
  let t ← peek
  if t.kind = .mark closing then
    advance
    return []
  else items item closing bound

end Parser

end Scriptlet
