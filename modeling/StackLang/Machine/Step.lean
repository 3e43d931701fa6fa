import StackLang.Bytecode.Listing
import StackLang.Machine.Arith
import StackLang.Machine.State
import StackLang.Text.Utf8

/-!
# One step

`step` executes the instruction at the index `ip`. What an instruction changed before it failed
stays changed, so the effects live in a monad that keeps the state of a failure: operands that
were popped stay popped, while the index moves only when the instruction has succeeded.
-/

namespace StackLang

open Bytecode Numeric

/-- An action on a machine that can fail and then keeps the state. -/
abbrev Exec := EStateM Fault Machine

namespace Exec

/-- Puts a value on the operand stack. -/
def push (v : Value) : Exec Unit := do
  let m ← get
  match m.stack.push v with
  | .ok stack => set { m with stack }
  | .error e => throw e

/-- Takes the topmost value of the operand stack. -/
def pop : Exec Value := do
  let m ← get
  match m.stack.pop with
  | .ok (v, stack) =>
    set { m with stack }
    return v
  | .error e => throw e

/-- Takes the topmost value, which has to have a tag. -/
def popTyped (op : Op) (expected : Tag) : Exec Value := do
  let v ← pop
  if v.tag = expected then return v else throw (.unexpectedType op (some expected) v.tag)

/-- Takes an address that is not zero. -/
def popAddress (op : Op) : Exec Nat := do
  let address := (← popTyped op .ptr).word.toNat
  if address = 0 then throw .nullPointer else return address

/-- Takes the address of a text and gives the bytes of the text. -/
def popText (op : Op) : Exec (List UInt8) := do
  let address ← popAddress op
  return (← get).textAt address

/-- The topmost value, which stays. -/
def top : Exec Value := do
  match (← get).stack.top? with
  | some v => return v
  | none => throw .stackUnderflow

/-- Changes the tag of the topmost value. -/
def retag (tag : Tag) : Exec Unit := do
  let m ← get
  match m.stack.retag tag with
  | .ok stack => set { m with stack }
  | .error e => throw e

/-- Exchanges the values at two indices counted from the bottom. -/
def swap (i j : Nat) : Exec Unit := do
  let m ← get
  match m.stack.swap i j with
  | .ok stack => set { m with stack }
  | .error e => throw e

/-- Takes an index counted from the top and gives the same one counted from the bottom. -/
def popIndex : Exec Nat := do
  let index := (← pop).word.toInt
  let size := (← get).stack.size
  if index < 0 ∨ (size : Int) ≤ index then throw .indexOutOfRange
  else return size - 1 - index.toNat

/-- The index that a jump goes to. -/
def jumpTarget (i : Instruction) : Exec Nat := do
  let target := i.value.toInt
  if target = 0 then throw .jumpToZero
  else if target < 0 ∨ ((← get).program.code.size : Int) ≤ target then
    throw (.jumpOutOfBounds i.op target)
  else return target.toNat

/-- The register of an instruction. -/
def register (i : Instruction) : Exec (Fin 16) :=
  if h : i.register.toNat < 16 then return ⟨i.register.toNat, h⟩
  else throw (.invalidRegister i.register.toNat)

/-- How many bytes to move through a word. -/
def byteCount (size : Value) : Exec Nat := do
  let n := size.word.toInt
  if n < 0 then throw .negativeSize
  else if 8 < n then throw (.sizeTooLarge n)
  else return n.toNat

/-- Pushes the address of a new cell. -/
def pushCell (made : Memory → Except Fault (Nat × Memory)) : Exec Unit := do
  let m ← get
  match made m.memory with
  | .ok (address, memory) =>
    set { m with memory }
    push (.ptr address)
  | .error e => throw e

/-- Pushes an immediate or the content of a register. -/
def pushOperand (i : Instruction) : Exec Unit := do
  if i.tag = .reg then
    let r ← register i
    push ((← get).registers[r])
  else push ⟨i.value, i.tag⟩

/-- Copies a string of the table into a new cell and pushes its address. -/
def pushString (i : Instruction) : Exec Unit := do
  let index := i.value.toInt
  let strings := (← get).program.strings
  match if 0 ≤ index then strings[index.toNat]? else none with
  | some text => pushCell (·.allocText text)
  | none => throw (.unknownString index)

/-- Loads a register from an immediate or from the topmost value. -/
def load (i : Instruction) : Exec Unit := do
  let r ← register i
  let v ← if i.tag = .top then top else pure ⟨i.value, i.tag⟩
  modify fun m => { m with registers := m.registers.set r v }

/-- Pushes the address of the topmost slot. -/
def reference : Exec Unit := do
  let size := (← get).stack.size
  if size = 0 then throw .stackUnderflow
  else push (.ptr (Machine.stackAddress + Stack.slotSize * (size - 1)))

/-- Pushes the tagged value that the topmost value points at: its word, and behind it its tag. -/
def dereference : Exec Unit := do
  let address := (← top).word.toNat
  if address = 0 then throw .nullPointer
  else
    let bytes := (← get).bytesFrom address
    let code := ((bytes.drop 8).headD 0).toNat
    match Tag.ofCode? code with
    | some tag => push ⟨.ofBytes (bytes.take 8), tag⟩
    | none => throw (.unknownType code)

/-- Takes a size and pushes the address of a new cell of zeros. -/
def allocate : Exec Unit := do
  let size := (← popTyped .alloc .int).word.toInt
  if size < 0 then throw .negativeSize else pushCell (·.alloc size.toNat)

/-- Takes an address and frees the cell that starts there. -/
def deallocate : Exec Unit := do
  let address := (← popTyped .dealloc .ptr).word.toNat
  let m ← get
  match m.memory.dealloc address with
  | .ok memory => set { m with memory }
  | .error e => throw e

/-- Takes a size, a value and an address and stores that many bytes of the value's word. -/
def store : Exec Unit := do
  let size ← pop
  let v ← pop
  if size.tag ≠ .int then throw (.unexpectedType .write (some .int) size.tag)
  else
    let count ← byteCount size
    let address ← popAddress .write
    modify fun m => m.setBytes address (v.word.toBytes.take count)

/-- Takes the code of a tag, a size and an address and pushes that many bytes as a value. -/
def fetch : Exec Unit := do
  let code := (← popTyped .read .int).word.toInt
  let size ← pop
  if size.tag ≠ .int ∧ size.tag ≠ .u8 then
    throw (.unexpectedType .read (some .int) size.tag)
  else
    let count ← byteCount size
    let address ← popAddress .read
    match Tag.ofInt? code with
    | some tag =>
      let bytes := (← get).bytesFrom address
      push ⟨.ofBytes (bytes.take count), tag⟩
    | none => throw (.unknownType code)

/-- Takes two values, the upper one first, and pushes what `f` makes of them. -/
def binary (f : Value → Value → Except Fault Value) : Exec Unit := do
  let b ← pop
  let a ← pop
  match f a b with
  | .ok v => push v
  | .error e => throw e

/-- Takes a value and pushes what `f` makes of it. -/
def unary (f : Value → Value) : Exec Unit := do
  let a ← pop
  push (f a)

/-- The line that shows a value under every view. -/
def printLine (v : Value) : String :=
  "as float: " ++ Binary.single.fixed 6 v.word.single ++
    s!", as int: {v.word.toInt}, as char: {Text.ofByte v.word.byte}" ++
    ", as pointer: " ++ Numeral.hex v.word.toNat ++ s!", type: {v.tag.name}\n"

/-- Writes bytes to the first stream. -/
def write (bytes : List UInt8) : Exec Unit :=
  modify fun m => { m with out := m.out ++ bytes.toArray }

/-- Writes bytes to the second stream. -/
def writeError (bytes : List UInt8) : Exec Unit :=
  modify fun m => { m with err := m.err ++ bytes.toArray }

/-- Halts with an exit code. -/
def haltWith (code : Int) : Exec Unit := modify fun m => { m with halt := some code }

/-- Runs a foreign function; its first stack failure becomes the failure of the instruction. -/
def callForeign (f : Interaction) : Exec Unit := do
  let m ← get
  let (stack, pending) := f.run m.stack m.pending
  set { m with stack, pending := none }
  match pending with
  | none => return
  | some e => throw e

/-- Calls a function of the native table. -/
def callNative (index : Int) : Exec Unit := do
  let natives := (← get).natives
  match if 0 ≤ index then natives[index.toNat]? else none with
  | none => throw (.unknownNative index)
  | some .write =>
    let stream := (← pop).word.toInt
    let text ← popText .native
    if stream = 1 then write text
    else if stream = 2 then writeError text
    else throw (.unsupportedStream stream)
  | some .exit =>
    let code := (← pop).word.toInt
    haltWith code
  | some (.haltWith code) => haltWith code
  | some (.failWith fault) => throw fault
  | some (.foreign f) => callForeign f

/-- Takes the names of a library and of a symbol and appends the function to the table. -/
def loadLibrary : Exec Unit := do
  let library ← popText .loadLib
  let symbol ← popText .loadLib
  let m ← get
  let name (bytes : List UInt8) : String := String.ofList (Text.Utf8.decodeLossy bytes)
  match m.loader library with
  | none => throw (.libraryLoad (name library))
  | some functions =>
    match functions symbol with
    | none => throw (.symbolLoad (name library) (name symbol))
    | some f =>
      match m.addNative (.foreign f) with
      | .ok (_, m) => set m
      | .error e => throw e

/-- What an instruction does apart from choosing the next one. -/
def effect (i : Instruction) : Exec Unit :=
  match i.op with
  | .nop => return
  | .push => pushOperand i
  | .pushStr => pushString i
  | .mov => load i
  | .ref => reference
  | .deref => dereference
  | .alloc => allocate
  | .dealloc => deallocate
  | .write => store
  | .read => fetch
  | .pop => do let _ ← pop
  | .dup => do push (← top)
  | .indup => do
    let index ← popIndex
    match (← get).stack.get? index with
    | some v => push v
    | none => throw .indexOutOfRange
  | .swap => do
    let size := (← get).stack.size
    if size < 2 then throw .stackUnderflow else swap (size - 1) (size - 2)
  | .inswap => do
    let index ← popIndex
    swap index ((← get).stack.size - 1)
  | .add => binary (Arith.add.apply .add)
  | .sub => binary (Arith.sub.apply .sub)
  | .mul => binary (Arith.mul.apply .mul)
  | .div => binary (Arith.div.apply .div)
  | .mod => binary Logic.remainder.apply
  | .and => binary Logic.both.apply
  | .or => binary Logic.either.apply
  | .addF => binary FloatArith.add.apply
  | .subF => binary FloatArith.sub.apply
  | .mulF => binary FloatArith.mul.apply
  | .divF => binary FloatArith.div.apply
  | .modF => binary FloatArith.remainder.apply
  | .cmpe => binary ((Arith.compare .equal).apply .cmpe)
  | .cmpne => binary ((Arith.compare .notEqual).apply .cmpne)
  | .cmpg => binary ((Arith.compare .greater).apply .cmpg)
  | .cmpl => binary ((Arith.compare .less).apply .cmpl)
  | .cmpge => binary ((Arith.compare .greaterEqual).apply .cmpge)
  | .cmple => binary ((Arith.compare .lessEqual).apply .cmple)
  | .itof => unary fun v => .float (Binary.single.ofInt v.word.toInt)
  | .ftoi => unary fun v =>
    .int (Binary.single.toInt (-2 ^ 63) (2 ^ 63 - 1) v.word.single)
  | .itoc => unary fun v => .char v.word.byte
  | .toi => retag .int
  | .tof => retag .float
  | .toc => retag .char
  | .tovp => retag .ptr
  | .print => do write (Text.Utf8.encode (printLine (← pop)).toList)
  | .native => callNative i.value.toInt
  | .entrypoint => throw (.notExecutable .entrypoint)
  | .loadLib => loadLibrary
  | .ss => do push (.int (← get).stack.size)
  | .halt => haltWith 0
  | .call | .ret | .jmp | .zjmp | .nzjmp => return

/-- Executes an instruction and gives the index of the next one. -/
def execute (i : Instruction) : Exec Nat := do
  let ip := (← get).ip
  match i.op with
  | .call =>
    let target ← jumpTarget i
    if returnCapacity ≤ (← get).returns.length then throw .returnStackOverflow
    else
      modify fun m => { m with returns := ip :: m.returns }
      return target
  | .ret =>
    let m ← get
    match m.returns with
    | [] => throw .returnStackUnderflow
    | caller :: returns =>
      set { m with returns }
      return caller + 1
  | .jmp => jumpTarget i
  | .zjmp =>
    let target ← jumpTarget i
    return if (← pop).word.isZero then target else ip + 1
  | .nzjmp =>
    let target ← jumpTarget i
    return if (← pop).word.isZero then ip + 1 else target
  | _ =>
    effect i
    return ip + 1

/-- Executes the next instruction of a program that has not ended. -/
def step : Exec Unit := do
  let m ← get
  match m.program.code[m.ip]? with
  | none => throw .halted
  | some i =>
    if m.halt.isSome then throw .halted
    else
      let next ← execute i
      modify fun m => { m with ip := next }

end Exec

/-- A machine after one step, and the fault if the step failed. -/
def Machine.step (m : Machine) : Option Fault × Machine :=
  match Exec.step m with
  | .ok _ m => (none, m)
  | .error e m => (some e, m)

end StackLang
