import StackLang.Bytecode.Program
import StackLang.Machine.Memory
import StackLang.Machine.Native

/-!
# The machine

A `Machine` holds a program, the index of the next instruction, the operand stack, the stack of
return addresses, sixteen registers, memory, the table of native functions and what has been
written. The operand stack lies in memory too: an address belongs to a cell, to a slot of the
stack, or to nothing. Bytes at addresses that belong to nothing read as missing and are not
written.
-/

namespace StackLang

open Bytecode

/-- The slots of the operand stack. -/
def stackCapacity : Nat := 1024

/-- The most return addresses at one time. -/
def returnCapacity : Nat := 1024

/-- The most functions in the native table. -/
def nativeCapacity : Nat := 100

/-- The state of a machine. -/
structure Machine where
  program : Program
  /-- The index of the next instruction. -/
  ip : Nat
  /-- The exit code, once the program has halted. -/
  halt : Option Int
  stack : Stack
  /-- The indices of the calls that have not returned, the last one first. -/
  returns : List Nat
  registers : Vector Value 16
  memory : Memory
  natives : Array Native
  /-- The first stack failure of a running foreign function. -/
  pending : Option Fault
  /-- What was written to the first stream and by `print`. -/
  out : Array UInt8
  /-- What was written to the second stream. -/
  err : Array UInt8
  loader : Loader

/-- Where an address points. -/
inductive Place where
  | cell (serial offset : Nat)
  | freed (serial offset : Nat)
  | stack (offset : Nat)
deriving DecidableEq, Repr

namespace Machine

/-- The machine at the start of a program. -/
def start (program : Program) (loader : Loader) : Machine where
  program
  ip := program.entrypoint
  halt := none
  stack := .empty stackCapacity
  returns := []
  registers := .replicate 16 (.int 0)
  memory := .empty
  natives := #[.write, .exit]
  pending := none
  out := #[]
  err := #[]
  loader

/-- Whether nothing is left to run. -/
def isFinished (m : Machine) : Bool := m.halt.isSome || m.program.code.size ≤ m.ip

/-- Appends to the native table. Gives the index of the function and the machine with it. -/
def addNative (m : Machine) (f : Native) : Except Fault (Nat × Machine) :=
  if nativeCapacity ≤ m.natives.size then .error .nativeTableFull
  else .ok (m.natives.size, { m with natives := m.natives.push f })

/-- The address of the bottom slot of the operand stack. -/
def stackAddress : Nat := 0x7e91d3c85010

/-- Whether an address lies in the slots of the operand stack. -/
def ownsSlot (m : Machine) (address : Nat) : Bool :=
  stackAddress ≤ address && address < stackAddress + Stack.slotSize * m.stack.capacity

/-- The bytes from an address on to the end of the cell or of the stack that it lies in. -/
def bytesFrom (m : Machine) (address : Nat) : List UInt8 :=
  match m.memory.owner? address with
  | some c => c.bytes.toList.drop (address - c.base)
  | none => if m.ownsSlot address then m.stack.bytesFrom (address - stackAddress) else []

/-- The bytes from an address on up to the first zero. -/
def textAt (m : Machine) (address : Nat) : List UInt8 := (m.bytesFrom address).takeWhile (· != 0)

/-- Replaces the byte at an address. -/
def setByte (m : Machine) (address : Nat) (b : UInt8) : Machine :=
  if m.ownsSlot address then
    { m with stack := m.stack.setByte (address - stackAddress) b }
  else { m with memory := m.memory.setByte address b }

/-- Replaces the bytes from an address on. -/
def setBytes (m : Machine) (address : Nat) : List UInt8 → Machine
  | [] => m
  | b :: rest => (m.setByte address b).setBytes (address + 1) rest

/-- What an address points to, the address just past a cell counting as the cell's. -/
def place? (m : Machine) (address : Nat) : Option Place :=
  match m.memory.cells.find? (·.spans address) with
  | some c => some (.cell c.serial (address - c.base))
  | none =>
    match m.memory.freed.find? (·.spans address) with
    | some c => some (.freed c.serial (address - c.base))
    | none => if m.ownsSlot address then some (.stack (address - stackAddress)) else none

end Machine

end StackLang
