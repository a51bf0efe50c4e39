import Scriptlet.Number.Layout
import Scriptlet.Tree.Basic

/-!
# Outlines of trees

A syntax tree as indented text, one field a line.

## Main definitions

* `Outline` — records, wrapped values and lists, whatever they come from
* `Outline.lines`, `Outline.text` — the layout
* `Block.outline` — a program as an outline

## Design decisions

* Layout and content are separate: a tree becomes an `Outline`, and that alone
  knows about lines and indentation.
* Every part of a record, a wrapped value or a list stands on lines of its own,
  indented by four spaces and closed by a comma.
-/

namespace Scriptlet

/-- **Outline.** -/
inductive Outline where
  /-- A word. -/
  | word (text : String)
  /-- Named parts. -/
  | record (name : String) (fields : List (String × Outline))
  /-- A part under a name. -/
  | wrap (name : String) (part : Outline)
  /-- A list of parts. -/
  | list (items : List Outline)
deriving Inhabited

namespace Outline

/-- Closes the last line with a comma. -/
def closed : List String → List String
  | [] => []
  | [line] => [line ++ ","]
  | line :: rest => line :: closed rest

/-- Opens the first line with a label. -/
def labelled (label : String) : List String → List String
  | [] => []
  | line :: rest => (label ++ line) :: rest

/-- The lines of a part inside of something: indented, and closed by a comma. -/
def inner (ls : List String) : List String :=
  (closed ls).map ("    " ++ ·)

mutual

/-- **Lines** of an outline. -/
def lines : Outline → List String
  | .word text => [text]
  | .record name fields => (name ++ " \x7b") :: fieldLines fields ++ ["\x7d"]
  | .wrap name part => (name ++ "(") :: inner (lines part) ++ [")"]
  | .list [] => ["[]"]
  | .list (item :: items) => "[" :: itemLines (item :: items) ++ ["]"]

/-- The lines of named parts. -/
def fieldLines : List (String × Outline) → List String
  | [] => []
  | (name, part) :: rest => inner (labelled (name ++ ": ") (lines part)) ++ fieldLines rest

/-- The lines of parts of a list. -/
def itemLines : List Outline → List String
  | [] => []
  | item :: rest => inner (lines item) ++ itemLines rest

end

/-- **Text** of an outline, without a line end at its end. -/
def text (o : Outline) : String :=
  String.intercalate "\n" o.lines

/-- A quoted text. -/
def quoted (s : String) : Outline := .word (Text.quoted s)

/-- A count. -/
def count (n : Nat) : Outline := .word (Nat.repr n)

/-- A truth value. -/
def boolean (b : Bool) : Outline := .word (if b then "true" else "false")

/-- A part that may be missing. -/
def option : Option Outline → Outline
  | none => .word "None"
  | some part => .wrap "Some" part

end Outline

/-- The outline of a site. -/
def Site.outline (s : Site) : Outline :=
  .record "Site" [("file", .quoted s.file), ("line", .count s.line), ("column", .count s.column)]

/-- The outline of a base type. -/
def BaseType.outline : BaseType → Outline
  | .num => .word "Number"
  | .str => .word "Text"
  | .bool => .word "Boolean"
  | .void => .word "Void"

/-- The outline of a declared type. -/
def DeclaredType.outline (t : DeclaredType) : Outline :=
  .record "TypeSpec" [("base", t.base.outline), ("array", .boolean t.array)]

/-- The outline of a literal. -/
def Literal.outline : Literal → Outline
  | .number x => .wrap "Number" (.word (Number.outline x))
  | .text s => .wrap "Text" (.quoted s)
  | .boolean b => .wrap "Boolean" (.boolean b)

/-- The outline of a prefix operator. -/
def UnaryOp.outline : UnaryOp → Outline
  | .plus => .word "Plus"
  | .minus => .word "Minus"
  | .not => .word "Not"

/-- The outline of an infix operator. -/
def BinaryOp.outline : BinaryOp → Outline
  | .add => .word "Add"
  | .sub => .word "Sub"
  | .mul => .word "Mul"
  | .div => .word "Div"
  | .rem => .word "Mod"
  | .less => .word "Less"
  | .greater => .word "Greater"
  | .lessEqual => .word "LessEqual"
  | .greaterEqual => .word "GreaterEqual"
  | .equal => .word "Equal"
  | .notEqual => .word "NotEqual"
  | .and => .word "And"
  | .or => .word "Or"

/-- The outline of a variable, with its type where it is declared. -/
def Outline.variable (name : String) (type : Option DeclaredType) (site : Site) : Outline :=
  .record "Variable"
    [("name", .quoted name), ("declared", .option (type.map DeclaredType.outline)),
      ("site", site.outline)]

/-- The outline of a call. -/
def Outline.call (name : String) (args : List Outline) (site : Site) : Outline :=
  .record "FunctionCall"
    [("name", .quoted name), ("arguments", .list args), ("site", site.outline)]

/-- The outline of an assignment. -/
def Outline.assignment (target value : Outline) (declaration : Bool) (site : Site) : Outline :=
  .record "Assignment"
    [("variable", target), ("value", value), ("declaration", .boolean declaration),
      ("site", site.outline)]

namespace Expr

mutual

/-- The outline of an expression. -/
def outline : Expr → Outline
  | .literal value site =>
    .record "Literal" [("value", value.outline), ("site", site.outline)]
  | .var name site => .wrap "Variable" (.variable name none site)
  | .unary op operand site =>
    .record "UnaryOp"
      [("op", op.outline), ("operand", outline operand), ("site", site.outline)]
  | .binary op left right site =>
    .record "BinaryOp"
      [("left", outline left), ("op", op.outline), ("right", outline right),
        ("site", site.outline)]
  | .array elements site =>
    .record "Array" [("elements", .list (outlines elements)), ("site", site.outline)]
  | .call name args site => .call name (outlines args) site

/-- The outlines of expressions. -/
def outlines : List Expr → List Outline
  | [] => []
  | e :: es => outline e :: outlines es

end

end Expr

/-- The outline of a parameter. -/
def Parameter.outline (p : Parameter) : Outline :=
  .record "Parameter"
    [("name", .quoted p.name), ("declared", p.type.outline), ("site", p.site.outline)]

/-- The outline of a link of an if chain. -/
def Outline.link (condition : Option Outline) (block : Outline) (next : Option Outline)
    (site : Site) : Outline :=
  .record "Conditional"
    [("condition", .option condition), ("block", block), ("next", .option next),
      ("site", site.outline)]

mutual

/-- The outline of a statement. -/
def Stmt.outline : Stmt → Outline
  | .declare type name nameSite value site =>
    .assignment (.variable name (some type) nameSite) value.outline true site
  | .reassign name nameSite value site =>
    .assignment (.variable name none nameSite) value.outline false site
  | .define f => .wrap "FunctionDefinition" (Function.outline f)
  | .call name args site => .call name (Expr.outlines args) site
  | .block body => .wrap "Block" (Block.outline body)
  | .branch chain => .wrap "If" (Conditional.outline chain)
  | .loop condition body site =>
    .record "While"
      [("condition", condition.outline), ("body", Block.outline body), ("site", site.outline)]
  | .count start stop step body site =>
    .record "Loop"
      [("start", start.outline), ("end", stop.outline), ("step", step.outline),
        ("body", Block.outline body), ("site", site.outline)]
  | .ret value site =>
    .record "Return" [("value", .option (value.map Expr.outline)), ("site", site.outline)]
  | .empty site => .record "Empty" [("site", site.outline)]

/-- The outlines of statements. -/
def Stmt.outlines : List Stmt → List Outline
  | [] => []
  | s :: rest => Stmt.outline s :: Stmt.outlines rest

/-- The outline of a block. -/
def Block.outline : Block → Outline
  | ⟨statements, site⟩ =>
    .record "Block"
      [("statements", .list (Stmt.outlines statements)),
        ("return_node", .option ((Block.returnIndex? ⟨statements, site⟩).map Outline.count)),
        ("site", site.outline)]

/-- The outline of a conditional. -/
def Conditional.outline : Conditional → Outline
  | ⟨condition, body, next, site⟩ =>
    .link (some condition.outline) (Block.outline body) (Otherwise.outline next) site

/-- The outline of the rest of an if chain. -/
def Otherwise.outline : Otherwise → Option Outline
  | .done => none
  | .elif link => some (Conditional.outline link)
  | .last body site => some (.link none (Block.outline body) none site)

/-- The outline of a function definition. -/
def Function.outline : Function → Outline
  | ⟨name, returnType, parameters, body, site⟩ =>
    .record "FunctionDefinition"
      [("name", .quoted name), ("return_type", returnType.outline),
        ("parameters", .list (parameters.map Parameter.outline)),
        ("body", Block.outline body), ("site", site.outline)]

end

end Scriptlet
