/-!
# Types

What a script can write as a type, and the types that values have.

## Main definitions

* `DataType` — the tag of a value, or the element type of an array
* `TypeSpec` — a data type, or arrays of it; every value has one
* `BaseType`, `DeclaredType` — the types that can be written in a script
* `TypeSpec.conformsTo` — whether a value may be bound to a declared type
* `TypeSpec.sameShape` — whether a value may replace another one

## Design decisions

* A script can write only `num`, `str`, `bool` and `void`, so a declared type has
  its own type; `DeclaredType.spec` embeds it into `TypeSpec`.
* The type of an array value is `TypeSpec.arrayOf` of its element type.  That is
  all that the rules on binding and reassigning look at, so they are stated on
  type specs and never on values.
-/

namespace Scriptlet

/-- **Data type.**  The tag of a value, or what the elements of an array are. -/
inductive DataType where
  /-- A number, `num`. -/
  | number
  /-- A text, `str`. -/
  | text
  /-- A truth value, `bool`. -/
  | boolean
  /-- An array. -/
  | array
  /-- No value, `void`. -/
  | void
  /-- Not known yet: the element type of an array that was written as `[]`. -/
  | unknown
deriving DecidableEq, Inhabited

/-- The name of a data type. -/
def DataType.name : DataType → String
  | .number => "num"
  | .text => "str"
  | .boolean => "bool"
  | .array => "array"
  | .void => "void"
  | .unknown => "unknown"

/-- **Type spec.**  A data type, or arrays with elements of that data type. -/
structure TypeSpec where
  /-- The data type, or the element type of the arrays. -/
  base : DataType
  /-- Whether the spec is about arrays. -/
  array : Bool
deriving DecidableEq, Inhabited

namespace TypeSpec

/-- The values of a data type. -/
def scalar (base : DataType) : TypeSpec := ⟨base, false⟩

/-- The arrays with elements of a data type. -/
def arrayOf (base : DataType) : TypeSpec := ⟨base, true⟩

/-- How a type spec is written: an array type has `[]` behind its element type. -/
def text (spec : TypeSpec) : String :=
  if spec.array then spec.base.name ++ "[]" else spec.base.name

/-- **Conformance.**  Whether a value of type `found` may be bound to something
declared as `declared`.

A scalar type takes values of that type, and arrays of them.  An array type
takes arrays with that element type and arrays whose element type is not known
yet.  Nothing conforms to arrays of `void`. -/
def conformsTo (found declared : TypeSpec) : Bool :=
  if declared.array && declared.base == .void then false
  else if found.array then
    found.base == declared.base || (declared.array && found.base == .unknown)
  else !declared.array && found.base == declared.base

/-- **Same shape.**  Whether a value of type `new` may replace one of type
`held`: the tags agree, and so do the element types of two arrays unless one of
them is not known yet. -/
def sameShape (held new : TypeSpec) : Bool :=
  if held.array && new.array then
    held.base == new.base || held.base == .unknown || new.base == .unknown
  else held == new

end TypeSpec

/-- **Base type.**  A data type that can be written in a script. -/
inductive BaseType where
  /-- Written `num` -/
  | num
  /-- Written `str` -/
  | str
  /-- Written `bool` -/
  | bool
  /-- Written `void` -/
  | void
deriving DecidableEq, Inhabited

/-- The data type that a base type names. -/
def BaseType.dataType : BaseType → DataType
  | .num => .number
  | .str => .text
  | .bool => .boolean
  | .void => .void

/-- **Declared type.**  A type as a script writes it. -/
structure DeclaredType where
  /-- The base type. -/
  base : BaseType
  /-- Whether `[]` follows it. -/
  array : Bool
deriving DecidableEq, Inhabited

/-- The type spec that a declared type stands for. -/
def DeclaredType.spec (t : DeclaredType) : TypeSpec :=
  ⟨t.base.dataType, t.array⟩

end Scriptlet
