import Scriptlet.Token.Basic

/-!
# Values

What expressions yield.  Numbers, texts and truth values are what they are; an
array is a handle to storage in the heap, so that all copies of the value share
their elements.

## Main definitions

* `Handle` — the name of an array's storage
* `Value` — values
* `Value.tag` — the data type of a value
* `Form` — a value written out with its elements
-/

namespace Scriptlet

/-- **Handle.**  Two array values with one handle are the same array. -/
structure Handle where
  /-- The place of the storage in the heap. -/
  slot : Nat
deriving DecidableEq, Inhabited

/-- **Value.** -/
inductive Value where
  /-- A number. -/
  | number (x : Number)
  /-- A text. -/
  | text (s : String)
  /-- A truth value. -/
  | boolean (b : Bool)
  /-- An array. -/
  | array (handle : Handle)
  /-- No value. -/
  | void
deriving DecidableEq, Inhabited

namespace Value

/-- The data type of a value. -/
def tag : Value → DataType
  | .number _ => .number
  | .text _ => .text
  | .boolean _ => .boolean
  | .array _ => .array
  | .void => .void

/-- The value of a literal. -/
def ofLiteral : Literal → Value
  | .number x => .number x
  | .text s => .text s
  | .boolean b => .boolean b

@[simp] theorem tag_ofLiteral (l : Literal) : (ofLiteral l).tag = l.dataType := by
  cases l <;> rfl

end Value

/-- **Written-out value.**  A value that does not refer to a heap, except where it
is told to hold an existing value. -/
inductive Form where
  /-- A value that needs no storage, or one that is already there. -/
  | held (value : Value)
  /-- An array with its elements.  Without an element type it takes that of its
  first element. -/
  | array (element : Option DataType) (items : List Form)
deriving Inhabited

end Scriptlet
