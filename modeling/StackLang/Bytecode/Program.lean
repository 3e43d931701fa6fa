import StackLang.Bytecode.Op
import StackLang.Word

/-!
# Programs

An instruction holds an operation, an operand with its tag, and a register. A `Program` is the
string table, the index at which a run starts, and the instructions.
-/

namespace StackLang.Bytecode

/-- One instruction. -/
structure Instruction where
  op : Op
  value : Word := .ofNat 0
  tag : Tag := .int
  register : UInt64 := 0
deriving DecidableEq, Repr, Inhabited

/-- A program of the machine. -/
structure Program where
  strings : List (List UInt8) := []
  entrypoint : Nat := 0
  code : Array Instruction := #[]
deriving DecidableEq, Repr, Inhabited

end StackLang.Bytecode
