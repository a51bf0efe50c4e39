import Scriptlet.Parser.Expr

/-!
# Parsing of statements

A statement is recognised by its first token; a statement that starts with a name
also by its second one.

## Main definitions

* `Parser.statement` — a statement
* `Parser.block` — a block in braces
* `Parser.conditional` — an `if` chain behind its `if`
* `Parser.program` — all statements up to the end
* `parse` — the program of a token list

## Design decisions

* Blocks hold statements and statements hold blocks.  As with operands, the
  parsers of parts take the parser for the statements inside as an argument,
  which is `statement` with a smaller bound.
* What makes a statement a declaration is the flag on its first token.
* Parameters of one name are found when the parameter list is complete and
  before the body is parsed.
-/

namespace Scriptlet

namespace Parser

/-- **Statements** up to a closing brace, which is consumed, or up to the end
token, which is not. -/
def statements (item : Parser Stmt) (braced : Bool) : Nat → Parser (List Stmt)
  | 0 => exhausted
  | bound + 1 => do
    let t ← peek
    if braced ∧ t.kind = .mark .rightBrace then
      advance
      return []
    else if t.kind = .endOfStream then
      if braced then throw (.endOfInput t.site) else return []
    else
      let s ← item
      let rest ← statements item braced bound
      return s :: rest

/-- **Block** in braces. -/
def block (item : Parser Stmt) (bound : Nat) : Parser Block := do
  let brace ← expect (.mark .leftBrace) "'\x7b'"
  let body ← statements item true bound
  return ⟨body, brace.site⟩

/-- **Conditional** behind its `if` or `elif`, which stands at `site`. -/
def conditional (item : Parser Stmt) : Nat → Site → Parser Conditional
  | 0, _ => exhausted
  | bound + 1, site => do
    let condition ← expression (bound + 1)
    let body ← block item (bound + 1)
    let t ← peek
    match t.kind with
    | .keyword .elifWord =>
      advance
      let link ← conditional item bound t.site
      return ⟨condition, body, .elif link, site⟩
    | .keyword .elseWord =>
      advance
      let last ← block item bound
      return ⟨condition, body, .last last t.site, site⟩
    | _ => return ⟨condition, body, .done, site⟩

/-- A parameter: its type and its name. -/
def parameter : Parser Parameter := do
  let t ← peek
  let type ← typeSpec
  let (name, _) ← identifier
  return ⟨name, type, t.site⟩

/-- The first parameter whose name an earlier one has, given the names of the
earlier ones. -/
def duplicate? (seen : List String) : List Parameter → Option Parameter
  | [] => none
  | p :: ps => if p.name ∈ seen then some p else duplicate? (p.name :: seen) ps

/-- **Function definition** from its name on. -/
def function (item : Parser Stmt) (bound : Nat) (returnType : DeclaredType) (site : Site) :
    Parser Stmt := do
  let (name, _) ← identifier
  let _ ← expect (.mark .leftParen) "'(' after the function name"
  let parameters ← separated parameter .rightParen bound
  match duplicate? [] parameters with
  | some p => throw (.duplicateParameter name p.name p.site)
  | none =>
    let body ← block item bound
    return .define ⟨name, returnType, parameters, body, site⟩

/-- A variable declaration from its name on. -/
def variableDeclaration (bound : Nat) (type : DeclaredType) (site : Site) : Parser Stmt := do
  let (name, nameSite) ← identifier
  let _ ← expect (.mark .equals) "'=' after the variable name"
  let value ← expression bound
  let _ ← expect (.mark .semicolon) "';' after the declaration"
  return .declare type name nameSite value site

/-- **Declaration** of a function or of a variable.  A name with an opening
bracket behind it, or the word `fun`, makes it a function. -/
def declaration (item : Parser Stmt) (bound : Nat) (site : Site) : Parser Stmt := do
  let type ← typeSpec
  let t ← peek
  match t.kind with
  | .keyword .function =>
    advance
    function item bound type site
  | .identifier _ =>
    if (← peekSecond?) = some (.mark .leftParen) then function item bound type site
    else variableDeclaration bound type site
  | _ => variableDeclaration bound type site

/-- **Reassignment** behind its `now`. -/
def reassignment (bound : Nat) (site : Site) : Parser Stmt := do
  let (name, nameSite) ← identifier
  let _ ← expect (.mark .equals) "'=' after the variable name"
  let value ← expression bound
  let _ ← expect (.mark .semicolon) "';' after the assignment"
  return .reassign name nameSite value site

/-- **Return** behind its keyword. -/
def returned (bound : Nat) (site : Site) : Parser Stmt := do
  let t ← peek
  if t.kind = .mark .semicolon then
    advance
    return .ret none site
  else
    let value ← expression bound
    let _ ← expect (.mark .semicolon) "';' after the returned value"
    return .ret (some value) site

/-- **While loop** behind its keyword. -/
def whileLoop (item : Parser Stmt) (bound : Nat) (site : Site) : Parser Stmt := do
  let condition ← expression bound
  let body ← block item bound
  return .loop condition body site

/-- **Counted loop** behind its `from`. -/
def countedLoop (item : Parser Stmt) (bound : Nat) (site : Site) : Parser Stmt := do
  let start ← expression bound
  let _ ← expect (.keyword .toWord) "'to' after the loop start"
  let stop ← expression bound
  let _ ← expect (.keyword .stepWord) "'step' after the loop end"
  let step ← expression bound
  let body ← block item bound
  return .count start stop step body site

/-- **Call statement**, whose first token is the name. -/
def callStatement (bound : Nat) (name : String) (site : Site) : Parser Stmt := do
  match ← peekSecond? with
  | some (.mark .leftParen) =>
    advance
    advance
    let args ← arguments (expression bound) bound
    let _ ← expect (.mark .semicolon) "';' after the call"
    return .call name args site
  | some (.mark .equals) => throw (.untypedAssignment name site)
  | _ => throw (.cannotParseLine name site)

/-- The statement that starts with the token `t`. -/
def statementAt (item : Parser Stmt) (bound : Nat) (t : Token) : Parser Stmt :=
  if t.flags.dataType then declaration item bound t.site
  else
    match t.kind with
    | .mark .leftBrace => do
      let body ← block item bound
      return .block body
    | .mark .semicolon => do
      advance
      return .empty t.site
    | .keyword .returnWord => do
      advance
      returned bound t.site
    | .keyword .ifWord => do
      advance
      let chain ← conditional item bound t.site
      return .branch chain
    | .keyword .whileWord => do
      advance
      whileLoop item bound t.site
    | .keyword .fromWord => do
      advance
      countedLoop item bound t.site
    | .keyword .now => do
      advance
      reassignment bound t.site
    | .identifier name => callStatement bound name t.site
    | .endOfStream => throw (.endOfInput t.site)
    | _ => throw (.cannotParseLine t.lexeme t.site)

/-- **Statement.** -/
def statement : Nat → Parser Stmt
  | 0 => exhausted
  | bound + 1 => do
    let t ← peek
    let s ← statementAt (statement bound) bound t
    note (.parsedStatement s.kind s.site)
    return s

/-- **Program**: all statements up to the end token, at the site of the first
token. -/
def program (bound : Nat) : Parser Block := do
  let t ← peek
  let body ← statements (statement bound) false bound
  return ⟨body, t.site⟩

/-- Runs a parser that takes a bound on the number of tokens. -/
def start {α : Type} (p : Nat → Parser α) (tokens : List Token) (log : Log) :
    EStateM.Result ParseError Cursor α :=
  p tokens.length ⟨tokens, log⟩

/-- The result of a parser with the tokens that it leaves, or its error. -/
def parts {α : Type} (p : Nat → Parser α) (tokens : List Token) :
    Except ParseError (α × List Token) :=
  match start p tokens .silent with
  | .ok a c => .ok (a, c.tokens)
  | .error e _ => .error e

end Parser

/-- **Program of a token list**, or the first error. -/
def parse (tokens : List Token) : Except ParseError Block :=
  (Parser.parts Parser.program tokens).map Prod.fst

end Scriptlet
