import StackLang.Source.DataType

/-!
# Named things of a program

What a source text can give a name to: variables, structures, functions, and functions of foreign
libraries. A variable of a structure type is a pointer that names its structure.
-/

namespace StackLang.Source

/-- A variable, a field of a structure or a parameter of a function. -/
structure Variable where
  name : String
  type : DataType
  isConst : Bool := false
  isArray : Bool := false
  /-- The structure that the variable points to, if its type is a structure. -/
  struct : Option String := none
  /-- The function that the variable belongs to, `none` for a global one. -/
  owner : Option String := none
deriving DecidableEq, Repr

namespace Variable

/-- Whether the type of the variable is a structure. -/
def isStruct (v : Variable) : Bool := v.struct.isSome

/-- Whether the variable belongs to no function. -/
def isGlobal (v : Variable) : Bool := v.owner.isNone

/-- The variable with the type as it is written: the structure, or else the data type, with
brackets behind it for an array. -/
def summary (v : Variable) : String :=
  v.name ++ ": " ++ v.struct.getD v.type.name ++ (if v.isArray then "[]" else "")

end Variable

/-- A structure with its fields in order. -/
structure StructType where
  name : String
  fields : List Variable
deriving DecidableEq, Repr

/-- The field of the given name. -/
def StructType.field? (s : StructType) (name : String) : Option Variable :=
  s.fields.find? fun f => f.name == name

/-- A function. Its body are the statements behind it up to the one that closes its label. -/
structure Function where
  name : String
  params : List Variable
  returnType : DataType
  label : Nat
deriving DecidableEq, Repr

/-- A parameter of a foreign function; a structure is passed by value or by reference. -/
structure ForeignParam where
  type : DataType
  struct : Option String := none
  isReference : Bool := false
deriving DecidableEq, Repr

/-- A function of a foreign library. -/
structure ForeignFunction where
  name : String
  params : List ForeignParam
  returnType : DataType
deriving DecidableEq, Repr

/-- A foreign library with the functions that are declared from it. -/
structure Library where
  file : String
  functions : List ForeignFunction
deriving DecidableEq, Repr

/-- What the symbol table of a program holds. -/
inductive Symbol where
  | variable (v : Variable)
  | function (f : Function)
  | struct (s : StructType)
  | foreign (f : ForeignFunction)
deriving DecidableEq, Repr

/-- The line that a summary of the symbols shows for one of them. -/
def Symbol.summary : Symbol → String
  | .variable v =>
    "var " ++ v.summary ++ (match v.owner with
      | some f => " (in " ++ f ++ ")"
      | none => "")
  | .function f =>
    "func " ++ f.name ++ "(" ++ ", ".intercalate (f.params.map Variable.summary) ++ "): " ++
      f.returnType.name
  | .struct s =>
    "struct " ++ s.name ++ " \x7b " ++ ", ".intercalate (s.fields.map Variable.summary) ++
      " \x7d"
  | .foreign f =>
    "ext " ++ f.name ++ "(" ++ ", ".intercalate (f.params.map fun p => p.type.name) ++ "): " ++
      f.returnType.name

end StackLang.Source
