import Scriptlet.Site

/-!
# Errors of parsing

## Main definitions

* `ParseError` — why a token list is no program
* `ParseError.message` — the wording
-/

namespace Scriptlet

/-- **Parsing error.** -/
inductive ParseError where
  /-- A token stands where another one has to stand. -/
  | unexpectedToken (expected found : String) (site : Site)
  /-- A token stands where an operand has to start. -/
  | invalidOperation (found : String) (site : Site)
  /-- No statement starts like this. -/
  | cannotParseLine (found : String) (site : Site)
  /-- A function has two parameters of one name. -/
  | duplicateParameter (function parameter : String) (site : Site)
  /-- A value is assigned without a type in front and without `now`. -/
  | untypedAssignment (name : String) (site : Site)
  /-- The tokens end inside of a construct. -/
  | endOfInput (site : Site)
deriving DecidableEq, Inhabited

namespace ParseError

/-- The site that the error points at. -/
def site : ParseError → Site
  | .unexpectedToken _ _ site | .invalidOperation _ site | .cannotParseLine _ site
  | .duplicateParameter _ _ site | .untypedAssignment _ site | .endOfInput site => site

/-- The wording of the error without its site. -/
def details : ParseError → String
  | .unexpectedToken expected found _ => "expected " ++ expected ++ ", found '" ++ found ++ "'"
  | .invalidOperation found _ => "invalid operation in expression near '" ++ found ++ "'"
  | .cannotParseLine found _ => "cannot parse this line, unexpected '" ++ found ++ "'"
  | .duplicateParameter function parameter _ =>
    "function '" ++ function ++ "' declares parameter '" ++ parameter ++ "' more than once"
  | .untypedAssignment name _ =>
    "missing type annotation for '" ++ name ++
      "' (declare it with a type or reassign it with 'now')"
  | .endOfInput _ => "unexpected end of input"

/-- The wording of the error. -/
def message (e : ParseError) : String :=
  e.site.text ++ ": ParseError: " ++ e.details

end ParseError

end Scriptlet
