/-!
# Operations

The operations of the machine in the order of their codes, with their spellings in assembly text.
A code or a mnemonic names at most one operation.
-/

namespace StackLang.Bytecode

/-- An operation of the machine. -/
inductive Op where
  | nop | push | pushStr | mov | ref | deref | alloc | dealloc | write | read | pop | dup | indup
  | swap | inswap | add | sub | mul | div | mod | and | or | addF | subF | mulF | divF | modF
  | cmpe | cmpne | cmpg | cmpl | cmpge | cmple | itof | ftoi | itoc | toi | tof | toc | tovp
  | call | ret | jmp | zjmp | nzjmp | print | native | entrypoint | loadLib | ss | halt
deriving DecidableEq, Repr, Inhabited

namespace Op

/-- Every operation, at the position of its code. -/
def all : List Op := [
  .nop, .push, .pushStr, .mov, .ref, .deref, .alloc, .dealloc, .write, .read, .pop, .dup, .indup,
  .swap, .inswap, .add, .sub, .mul, .div, .mod, .and, .or, .addF, .subF, .mulF, .divF, .modF,
  .cmpe, .cmpne, .cmpg, .cmpl, .cmpge, .cmple, .itof, .ftoi, .itoc, .toi, .tof, .toc, .tovp,
  .call, .ret, .jmp, .zjmp, .nzjmp, .print, .native, .entrypoint, .loadLib, .ss, .halt]

/-- The number that stands for the operation in a program file. -/
def code (op : Op) : Nat := op.ctorIdx

/-- The operation with a code. -/
def ofCode? (n : Nat) : Option Op := all[n]?

/-- The word that names the operation. -/
def mnemonic : Op → String
  | .nop => "nop"
  | .push => "push"
  | .pushStr => "push_str"
  | .mov => "mov"
  | .ref => "ref"
  | .deref => "deref"
  | .alloc => "alloc"
  | .dealloc => "dealloc"
  | .write => "write"
  | .read => "read"
  | .pop => "pop"
  | .dup => "dup"
  | .indup => "indup"
  | .swap => "swap"
  | .inswap => "inswap"
  | .add => "add"
  | .sub => "sub"
  | .mul => "mul"
  | .div => "div"
  | .mod => "mod"
  | .and => "and"
  | .or => "or"
  | .addF => "add_f"
  | .subF => "sub_f"
  | .mulF => "mul_f"
  | .divF => "div_f"
  | .modF => "mod_f"
  | .cmpe => "cmpe"
  | .cmpne => "cmpne"
  | .cmpg => "cmpg"
  | .cmpl => "cmpl"
  | .cmpge => "cmpge"
  | .cmple => "cmple"
  | .itof => "itof"
  | .ftoi => "ftoi"
  | .itoc => "itoc"
  | .toi => "toi"
  | .tof => "tof"
  | .toc => "toc"
  | .tovp => "tovp"
  | .call => "call"
  | .ret => "ret"
  | .jmp => "jmp"
  | .zjmp => "zjmp"
  | .nzjmp => "nzjmp"
  | .print => "print"
  | .native => "native"
  | .entrypoint => "entrypoint"
  | .loadLib => "load_lib"
  | .ss => "ss"
  | .halt => "halt"

/-- The operation that a word names. -/
def ofMnemonic? (word : String) : Option Op := all.find? fun op => op.mnemonic == word

/-- Whether the instruction reads its operand. -/
def hasOperand : Op → Bool
  | .push | .pushStr | .mov | .call | .jmp | .zjmp | .nzjmp | .native | .entrypoint => true
  | _ => false

/-- Whether the operand is the index of an instruction. -/
def isJump : Op → Bool
  | .call | .jmp | .zjmp | .nzjmp => true
  | _ => false

theorem ofCode?_code (op : Op) : ofCode? op.code = some op := by
  cases op <;> rfl

theorem code_lt (op : Op) : op.code < 51 := by
  cases op <;> decide

theorem ofMnemonic?_mnemonic (op : Op) : ofMnemonic? op.mnemonic = some op := by
  cases op <;> decide

end Op

end StackLang.Bytecode
