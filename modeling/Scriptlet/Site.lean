/-!
# Source sites

Tokens, tree nodes and errors point into the source text.  A `Position` is a
line and a column; a `Site` is a position in a named file.

## Main definitions

* `Position.advance` — the position after one more character has been read
* `Position.advanceBy` — the position after a run of characters
* `Site.text` — the site as reports show it, `file:line:column`

## Design decisions

* Lines and columns count from one, and a column counts characters, so that a
  letter outside ASCII moves the column by one like any other.
* Only the line feed ends a line.  A carriage return is an ordinary character
  of the line that it stands on.
-/

namespace Scriptlet

/-- **Position in a text.**  The line and the column of a character, both
counted from one. -/
structure Position where
  /-- Line, counted from one. -/
  line : Nat
  /-- Column, counted in characters from one. -/
  column : Nat
deriving DecidableEq, Inhabited

namespace Position

/-- The position of the first character of a text. -/
def start : Position := ⟨1, 1⟩

/-- The position after reading `c` at `p`: a line feed opens the next line, and
every other character takes one column. -/
def advance (p : Position) (c : Char) : Position :=
  if c = '\n' then ⟨p.line + 1, 1⟩ else ⟨p.line, p.column + 1⟩

/-- The position after reading the characters `cs` one by one. -/
def advanceBy (p : Position) (cs : List Char) : Position :=
  cs.foldl advance p

@[simp] theorem advance_newline (p : Position) :
    p.advance '\n' = ⟨p.line + 1, 1⟩ := rfl

@[simp] theorem advanceBy_nil (p : Position) : p.advanceBy [] = p := rfl

@[simp] theorem advanceBy_cons (p : Position) (c : Char) (cs : List Char) :
    p.advanceBy (c :: cs) = (p.advance c).advanceBy cs := rfl

@[simp] theorem advanceBy_append (p : Position) (cs ds : List Char) :
    p.advanceBy (cs ++ ds) = (p.advanceBy cs).advanceBy ds :=
  List.foldl_append

end Position

/-- **Source site.**  A position in a named file. -/
structure Site where
  /-- Name of the file, as the caller gave it. -/
  file : String
  /-- Line, counted from one. -/
  line : Nat
  /-- Column, counted in characters from one. -/
  column : Nat
deriving DecidableEq, Inhabited

namespace Site

/-- The site of a position in `file`. -/
def ofPosition (file : String) (p : Position) : Site :=
  ⟨file, p.line, p.column⟩

/-- The site of what belongs to no source text. -/
def unknown : Site := ⟨"<unknown>", 1, 1⟩

/-- The site as reports show it, `file:line:column`. -/
def text (s : Site) : String :=
  s.file ++ ":" ++ Nat.repr s.line ++ ":" ++ Nat.repr s.column

end Site

end Scriptlet
