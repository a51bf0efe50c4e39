/-!
# Lines of a text

## Main definitions

* `Text.lines` — the lines of a text without their line ends

## Design decisions

* A line ends at a line feed.  A carriage return right in front of it belongs to
  the line end; one that stands elsewhere, or at the end of a last line without
  a line feed, belongs to the line.
* A line feed at the very end of a text opens no further line.
-/

namespace Scriptlet

namespace Text

/-- A line that ended at a line feed, without a carriage return at its end. -/
def dropReturn (line : List Char) : List Char :=
  match line.getLast? with
  | some '\r' => line.dropLast
  | _ => line

/-- The lines of `cs`, where `line` is what precedes `cs` on its line, in reverse
order. -/
def linesFrom (line : List Char) : List Char → List (List Char)
  | [] => if line.isEmpty then [] else [line.reverse]
  | c :: cs =>
    if c = '\n' then dropReturn line.reverse :: linesFrom [] cs
    else linesFrom (c :: line) cs

/-- **Lines** of a text. -/
def lines (s : String) : List String :=
  (linesFrom [] s.toList).map String.ofList

end Text

end Scriptlet
