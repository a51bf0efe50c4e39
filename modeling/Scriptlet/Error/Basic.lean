import Scriptlet.Error.Lex
import Scriptlet.Error.Parse
import Scriptlet.Error.Runtime

/-!
# Errors

Everything that can end a script before its end.

## Main definitions

* `Error` — an error of scanning, parsing or running
* `Error.site`, `Error.message` — where it points and how it is worded
-/

namespace Scriptlet

/-- **Error.** -/
inductive Error where
  /-- The source has no tokens. -/
  | lex (e : LexError)
  /-- The tokens are no program. -/
  | parse (e : ParseError)
  /-- The program failed. -/
  | runtime (e : RuntimeError)
deriving DecidableEq, Inhabited

namespace Error

/-- The site that the error points at. -/
def site : Error → Site
  | .lex e => e.site
  | .parse e => e.site
  | .runtime e => e.site

/-- The wording of the error. -/
def message : Error → String
  | .lex e => e.message
  | .parse e => e.message
  | .runtime e => e.message

end Error

end Scriptlet
