import Scriptlet.Error.Basic
import Scriptlet.Text.Lines

/-!
# Error reports

A report is the message of an error, and below it the line of the source that the
error points at, with a caret under the column.

## Main definitions

* `Report.snippet` — line number, line and caret
* `Report.render` — the whole report
-/

namespace Scriptlet

namespace Report

/-- A run of spaces. -/
def spaces (n : Nat) : String :=
  String.ofList (List.replicate n ' ')

/-- **Snippet.**  The line under a gutter with its number, and a caret under the
column. -/
def snippet (site : Site) (line : String) : String :=
  let number := Nat.repr site.line
  let gutter := spaces number.length
  "\n" ++ gutter ++ " |\n" ++ number ++ " | " ++ line ++ "\n" ++ gutter ++ " | " ++
    spaces (site.column - 1) ++ "^"

/-- The line of the source that a site points at. -/
def line? (site : Site) (source : String) : Option String :=
  if site.line = 0 then none else (Text.lines source)[site.line - 1]?

/-- **Report** of an error.  There is no snippet if the site does not fall on a
line of the source. -/
def render (e : Error) (source : String) : String :=
  "[FATAL ERROR] " ++ e.message ++ ((line? e.site source).map (snippet e.site)).getD ""

end Report

end Scriptlet
