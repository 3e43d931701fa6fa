import StackLang.Arena
import StackLang.Source.Entity
import StackLang.Source.Token

/-!
# Expressions

The expressions of a program live in one arena and refer to each other by their positions there.
Each has a type and the location of its leftmost token.
-/

namespace StackLang.Source

/-- The binary operators. -/
inductive Operator where
  | plus | minus | times | divide | modulo | equal | notEqual | greaterEqual | lessEqual
  | greater | less | both | either
deriving DecidableEq, Repr

namespace Operator

/-- The operator that a mark stands for. -/
def ofMark? : Mark → Option Operator
  | .plus => some .plus
  | .minus => some .minus
  | .times => some .times
  | .divide => some .divide
  | .modulo => some .modulo
  | .equal => some .equal
  | .notEqual => some .notEqual
  | .greaterEqual => some .greaterEqual
  | .lessEqual => some .lessEqual
  | .greater => some .greater
  | .less => some .less
  | .both => some .both
  | .either => some .either
  | _ => none

/-- The mark of an operator. -/
def mark : Operator → Mark
  | .plus => .plus
  | .minus => .minus
  | .times => .times
  | .divide => .divide
  | .modulo => .modulo
  | .equal => .equal
  | .notEqual => .notEqual
  | .greaterEqual => .greaterEqual
  | .lessEqual => .lessEqual
  | .greater => .greater
  | .less => .less
  | .both => .both
  | .either => .either

@[simp] theorem ofMark?_mark (op : Operator) : ofMark? op.mark = some op := by
  cases op <;> rfl

/-- How tightly an operator binds: the multiplicative and the logical ones bind tighter than the
rest. -/
def precedence : Operator → Nat
  | .times | .divide | .modulo | .both | .either => 2
  | _ => 1

end Operator

/-- The position of an expression in its arena. -/
abbrev ExprId := Nat

/-- The forms of expressions. -/
inductive ExprKind where
  | integer (n : Nat)
  /-- A number of the double format, given by its pattern. -/
  | float (pattern : Nat)
  | text (s : String)
  | char (b : UInt8)
  | binary (op : Operator) (left right : ExprId)
  | variable (name : String)
  | element (array : String) (index : ExprId)
  | field (struct field : String)
  | elementField (array : String) (index : ExprId) (field : String)
  | call (name : String) (args : List ExprId)
  | foreignCall (name : String) (args : List ExprId)
  /-- The values of the fields of a structure, in order. -/
  | record (values : List ExprId)
  | builtin (b : Builtin) (args : List ExprId)
  | library (l : Library)
deriving DecidableEq, Repr

/-- The expressions that an expression is made of. -/
def ExprKind.children : ExprKind → List ExprId
  | .binary _ left right => [left, right]
  | .element _ index | .elementField _ index _ => [index]
  | .call _ args | .foreignCall _ args | .builtin _ args => args
  | .record values => values
  | _ => []

/-- An expression. -/
structure Expr where
  kind : ExprKind
  type : DataType
  loc : Location
deriving DecidableEq, Repr

instance : Inhabited Expr := ⟨⟨.integer 0, .int, default⟩⟩

/-- The type that diagnostics show. A text is a pointer to its characters, and so of type `char`,
but it is shown as `str`. -/
def Expr.shownType (e : Expr) : DataType :=
  match e.kind with
  | .text _ => .str
  | _ => e.type

end StackLang.Source
