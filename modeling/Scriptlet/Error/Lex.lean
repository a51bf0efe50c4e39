import Scriptlet.Site

/-!
# Errors of scanning

## Main definitions

* `LexError` — why a source text has no tokens
* `LexError.message` — the wording
-/

namespace Scriptlet

/-- **Scanning error.** -/
inductive LexError where
  /-- No token starts with this character. -/
  | unscannableCharacter (character : String) (site : Site)
  /-- A text literal is not closed on its line. -/
  | unterminatedText (site : Site)
deriving DecidableEq, Inhabited

namespace LexError

/-- The site that the error points at. -/
def site : LexError → Site
  | .unscannableCharacter _ site | .unterminatedText site => site

/-- The wording of the error. -/
def message : LexError → String
  | .unscannableCharacter character site =>
    site.text ++ ": LexError: cannot scan character '" ++ character ++ "'"
  | .unterminatedText site => site.text ++ ": LexError: unterminated text literal"

end LexError

end Scriptlet
