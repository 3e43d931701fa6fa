import StackLang.Bytecode.Program
import StackLang.Numeric.Decimal
import StackLang.Numeric.Numeral
import StackLang.Text.Escape

/-!
# Listings

The text of instructions and values. A listed instruction reads as assembly text again, apart from
jump targets, which are shown as indices, and from float operands, of which six places are shown.
-/

namespace StackLang

open Numeric

/-- A word under a tag. -/
def Word.render (w : Word) : Tag → String
  | .int => toString w.toInt
  | .u8 => toString (w.low 8)
  | .u16 => toString (w.low 16)
  | .u32 => toString (w.low 32)
  | .u64 => toString w.toNat
  | .float => Binary.single.fixed 6 w.single
  | .double => Binary.double.fixed 6 w.double
  | .char => "'" ++ Text.Escape.spellAll [w.byte] ++ "'"
  | .ptr => Numeral.hex w.toNat
  | .reg => s!"r{w.toNat}"
  | .top => "top"

/-- A value without its tag. -/
def Value.render (v : Value) : String := v.word.render v.tag

namespace Bytecode

namespace Instruction

/-- The operand; the tags that a literal does not show stand in front of it. -/
def renderOperand (i : Instruction) : String :=
  match i.tag with
  | .reg => s!"r{i.register}"
  | .top => "top"
  | .int | .float | .char => i.value.render i.tag
  | t => t.name ++ " " ++ i.value.render t

/-- The string of the table that the operand names, between quotes. -/
def renderString (strings : List (List UInt8)) (i : Instruction) : String :=
  let index := i.value.toInt
  match if 0 ≤ index then strings[index.toNat]? else none with
  | some s => "\"" ++ Text.Escape.spellAll s ++ "\""
  | none => s!"<missing string {index}>"

/-- The mnemonic, and the operand if there is one. -/
def render (strings : List (List UInt8)) (i : Instruction) : String :=
  if !i.op.hasOperand then i.op.mnemonic
  else
    i.op.mnemonic ++ " " ++
      match i.op with
      | .pushStr => i.renderString strings
      | .mov => s!"r{i.register} " ++ i.renderOperand
      | _ => i.renderOperand

end Instruction

namespace Program

/-- A line with its index for every instruction from the entry point on. -/
def listing (p : Program) : String :=
  let lines := (p.code.toList.zipIdx.drop p.entrypoint).map fun (i, index) =>
    s!"{index}: {i.render p.strings}\n"
  String.join lines

end Program

end Bytecode

end StackLang
