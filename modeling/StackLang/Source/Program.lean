import StackLang.Source.Expr

/-!
# Programs

A program is what parsing makes of a source text: the statements in order, where bodies of
functions and branches stand inline between labels, the tables of what is declared, and the arena
of all expressions.
-/

namespace StackLang.Source

/-- The declaration of a variable with its first value, or the first elements of an array. -/
structure Declaration where
  target : Variable
  size : Option ExprId
  values : List ExprId
deriving DecidableEq, Repr

/-- The functions of the machine that have statements of their own. -/
inductive NativeCall where
  | write | exit
deriving DecidableEq, Repr

/-- A statement. Labels count from one and mark the places that control flow jumps to. -/
inductive Statement where
  | declare (d : Declaration)
  | assign (name : String) (value : ExprId)
  | assignElement (array : String) (index value : ExprId)
  | assignField (struct field : String) (value : ExprId)
  /-- The start of a function; its body follows. -/
  | function (f : Function)
  | call (name : String) (args : List ExprId)
  | ifThen (condition : ExprId)
  /-- Closes the label of the branch before it and opens the one of the branch behind it. -/
  | otherwise (closed opened : Nat)
  | whileThen (condition : ExprId)
  | opening (label : Nat)
  | closing (label : Nat)
  | giveBack (value : ExprId)
  | evaluate (value : ExprId)
  | native (call : NativeCall) (arg : ExprId)
deriving DecidableEq, Repr

/-- Something at a location. -/
structure Located (α : Type) where
  item : α
  loc : Location
deriving DecidableEq, Repr

/-- A parsed source text. -/
structure Program where
  statements : Array (Located Statement) := #[]
  globals : Array (Located Declaration) := #[]
  structs : Array (Located StructType) := #[]
  /-- The statements that declare foreign libraries. -/
  libraries : Array (Located ExprId) := #[]
  functions : Array Function := #[]
  symbols : Array Symbol := #[]
  exprs : Arena Expr := .empty
deriving Repr

namespace Program

/-- The program of an empty text. -/
def empty : Program := {}

/-- The expression at a position. -/
def expr (p : Program) (id : ExprId) : Expr := (p.exprs.get? id).getD default

/-- The first function of the given name. -/
def function? (p : Program) (name : String) : Option Function :=
  p.functions.toList.find? fun f => f.name == name

/-- The function of the given name that was declared last. -/
def latestFunction? (p : Program) (name : String) : Option Function :=
  p.functions.toList.reverse.find? fun f => f.name == name

/-- The first foreign function of the given name. -/
def foreign? (p : Program) (name : String) : Option ForeignFunction :=
  p.symbols.toList.findSome? fun
    | .foreign f => if f.name == name then some f else none
    | _ => none

/-- The first structure of the given name. -/
def struct? (p : Program) (name : String) : Option StructType :=
  p.symbols.toList.findSome? fun
    | .struct s => if s.name == name then some s else none
    | _ => none

/-- The first variable of the given name that belongs to the function `owner`. -/
def ownVariable? (p : Program) (owner : Option String) (name : String) : Option Variable :=
  p.symbols.toList.findSome? fun
    | .variable v => if v.name == name && v.owner == owner then some v else none
    | _ => none

/-- The variable that a name means in the function `owner`: there a parameter of the latest
function of that name, or else a variable that was declared in it; outside of functions a global
variable. -/
def resolve? (p : Program) (owner : Option String) (name : String) : Option Variable :=
  let param? := owner.bind fun f => (p.latestFunction? f).bind fun f =>
    f.params.find? fun v => v.name == name
  param?.or (p.ownVariable? owner name)

/-- Gives an expression another type. -/
def retype (p : Program) (id : ExprId) (type : DataType) : Program :=
  { p with exprs := p.exprs.modify id fun e => { e with type } }

/-- Only the type of an expression changes. -/
theorem expr_retype (p : Program) (id j : ExprId) (type : DataType) :
    (p.retype id type).expr j =
      if id = j ∧ j < p.exprs.size then { p.expr j with type } else p.expr j := by
  simp only [expr, retype, Arena.get?_modify]
  by_cases h : id = j
  · subst h
    cases he : p.exprs.get? id with
    | none => simp [Nat.not_lt.2 (Arena.get?_eq_none_iff.1 he)]
    | some e =>
      have : ¬ p.exprs.size ≤ id := fun hle => by simp [Arena.get?_eq_none_iff.2 hle] at he
      simp [Nat.not_le.1 this]
  · simp [h]

/-- The summary of the symbols in the order of their declaration, a line for each. -/
def summary (p : Program) : String :=
  String.join (p.symbols.toList.map fun s => s.summary ++ "\n")

end Program

end StackLang.Source
