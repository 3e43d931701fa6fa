/-!
# Types of the source language

Every variable and expression has one of eleven types. A structure is reached through a pointer:
a variable of a structure type has the type `ptr` and names its structure apart from that.
-/

namespace StackLang.Source

/-- A type of the source language. -/
inductive DataType where
  | int | str | void | char | float | double | ptr | u8 | u16 | u32 | u64
deriving DecidableEq, Repr, Inhabited

namespace DataType

/-- Every type. -/
def all : List DataType :=
  [.int, .str, .void, .char, .float, .double, .ptr, .u8, .u16, .u32, .u64]

/-- The word that names the type. -/
def name : DataType → String
  | .int => "int"
  | .str => "str"
  | .void => "void"
  | .char => "char"
  | .float => "float"
  | .double => "double"
  | .ptr => "ptr"
  | .u8 => "u8"
  | .u16 => "u16"
  | .u32 => "u32"
  | .u64 => "u64"

/-- The type that a word names. -/
def ofName? (word : String) : Option DataType := all.find? fun t => t.name == word

/-- The integer types, which mix freely. -/
def isInteger : DataType → Bool
  | .int | .u8 | .u16 | .u32 | .u64 => true
  | _ => false

/-- Whether a value of one type may meet a value of the other: equal types, integer types, and
`str` with anything. -/
def meets (a b : DataType) : Bool :=
  a == b || a == .str || b == .str || (a.isInteger && b.isInteger)

theorem meets_comm (a b : DataType) : a.meets b = b.meets a := by
  cases a <;> cases b <;> rfl

theorem meets_refl (a : DataType) : a.meets a = true := by
  cases a <;> rfl

theorem ofName?_name (t : DataType) : ofName? t.name = some t := by
  cases t <;> decide

end DataType

end StackLang.Source
