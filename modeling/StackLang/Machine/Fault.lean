import StackLang.Bytecode.Op
import StackLang.Word

/-!
# Faults

What makes an instruction fail. `Fault.message` holds every wording.
-/

namespace StackLang

open Bytecode

/-- Why an instruction failed. -/
inductive Fault where
  | stackOverflow
  | stackUnderflow
  | returnStackOverflow
  | returnStackUnderflow
  | indexOutOfRange
  | divideByZero
  | invalidFree
  | jumpToZero
  | jumpOutOfBounds (op : Op) (target : Int)
  /-- A value of the wrong type; without an expected tag, one that stands for no value. -/
  | unexpectedType (op : Op) (expected : Option Tag) (found : Tag)
  | negativeSize
  | sizeTooLarge (size : Int)
  | nullPointer
  | unknownType (code : Int)
  | unknownString (index : Int)
  | unknownNative (index : Int)
  | nativeTableFull
  | invalidRegister (index : Nat)
  | unsupportedStream (stream : Int)
  | libraryLoad (library : String)
  | symbolLoad (library symbol : String)
  | notExecutable (op : Op)
  | halted
  | outOfMemory
  | malformedInput
deriving DecidableEq, Repr

/-- The text of a fault. -/
def Fault.message : Fault → String
  | .stackOverflow => "error: stack overflow"
  | .stackUnderflow => "error: stack underflow"
  | .returnStackOverflow => "error: return stack overflow"
  | .returnStackUnderflow => "error: return without a call"
  | .indexOutOfRange => "error: index out of range"
  | .divideByZero => "error: cannot divide by 0"
  | .invalidFree => "could not free pointer"
  | .jumpToZero => "error: cannot jump to 0"
  | .jumpOutOfBounds op target => s!"error: cannot {op.mnemonic} out of bounds to: {target}"
  | .unexpectedType op expected found =>
    let wanted := match expected with
      | some t => t.name
      | none => "a value"
    s!"error: {op.mnemonic} expected {wanted} but found {found.name}"
  | .negativeSize => "error: size cannot be negative"
  | .sizeTooLarge size => s!"error: cannot move {size} bytes through a single word"
  | .nullPointer => "error: null pointer access"
  | .unknownType code => s!"error: unknown type tag {code}"
  | .unknownString index => s!"error: string {index} is not in the string table"
  | .unknownNative index => s!"error: native function {index} is not loaded"
  | .nativeTableFull => "error: native table is full"
  | .invalidRegister index => s!"error: invalid register r{index}"
  | .unsupportedStream stream => s!"error: unsupported stream {stream}"
  | .libraryLoad library =>
    s!"error loading lib: {library}: {library}: cannot open shared object file: " ++
      "No such file or directory"
  | .symbolLoad library symbol =>
    s!"error loading function: {symbol}: {library}: undefined symbol: {symbol}"
  | .notExecutable op => s!"error: `{op.mnemonic}` can not be executed"
  | .halted => "error: program has already ended"
  | .outOfMemory => "error: out of memory"
  | .malformedInput => "error: stream did not contain valid UTF-8"

end StackLang
