import StackLang.Bytecode.Op
import StackLang.Numeric.Decimal
import StackLang.Numeric.Numeral
import StackLang.Text.Quoted
import StackLang.Word

/-!
# Tokens of assembly text

A word is a mnemonic, a type, a register, `top` or, failing all of these, a name. Numbers hold the
word they stand for, so that a literal above the signed range keeps its bits. `describe` is the
form in which messages show a token.
-/

namespace StackLang.Assembly

open Bytecode Numeric

/-- A token of assembly text. -/
inductive Token where
  | instruction (op : Op)
  | type (tag : Tag)
  | register (index : Nat)
  | top
  | newline
  | colon
  | text (bytes : List UInt8)
  | char (b : UInt8)
  | name (word : String)
  | number (n : Word)
  | float (pattern : Nat)
deriving DecidableEq, Repr

namespace Token

/-- The index behind the letter of a register word. -/
def registerIndex? (word : String) : Option Nat :=
  match word.toList with
  | 'r' :: digits => Numeral.word? 10 digits
  | _ => none

/-- The token that a word stands for. The tag words of registers and of the stack top are no
types: `top` is an operand of its own, `reg` a name. -/
def ofWord (word : String) : Token :=
  match Op.ofMnemonic? word with
  | some op => .instruction op
  | none =>
    match Tag.ofName? word with
    | some .top => .top
    | some .reg => .name word
    | some tag => .type tag
    | none =>
      match registerIndex? word with
      | some index => .register index
      | none => .name word

/-- A word with each of its parts between underscores capitalised and the underscores dropped. -/
def title (word : String) : String :=
  String.join ((word.splitOn "_").map String.capitalize)

/-- A token as messages show it. -/
def describe : Token → String
  | .instruction op => s!"Instruction({title op.mnemonic})"
  | .type tag => s!"Type({title tag.name})"
  | .register index => s!"Register({index})"
  | .top => "Top"
  | .newline => "Newline"
  | .colon => "Colon"
  | .text bytes => "Str([" ++ ", ".intercalate (bytes.map fun b => toString b.toNat) ++ "])"
  | .char b => s!"Char({b.toNat})"
  | .name word => "Name(" ++ Text.Quoted.string word ++ ")"
  | .number n => s!"Number({n.toInt})"
  | .float pattern => "Float(" ++ DecimalStyle.pointed.render .double pattern ++ ")"

/-- A token as messages show it, or the end of the text. -/
def describe? : Option Token → String
  | some t => "Some(" ++ t.describe ++ ")"
  | none => "None"

end Token

end StackLang.Assembly
