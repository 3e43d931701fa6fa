import StackLang.Machine.Fault

/-!
# Memory cells

A cell is a row of bytes at an address, known by the address of its first byte. Addresses rise
from one allocation to the next and are never handed out twice; between two cells lies a gap, so
that the address just past a cell is in no other one. A cell without bytes lies at the address
one. Cells are numbered in the order in which they were made.
-/

namespace StackLang

/-- A row of bytes in memory. -/
structure Cell where
  /-- How many cells were made before it. -/
  serial : Nat
  base : Nat
  bytes : Array UInt8
deriving DecidableEq, Repr

namespace Cell

/-- The number of bytes. -/
def size (c : Cell) : Nat := c.bytes.size

/-- Whether an address is that of one of the bytes. -/
def owns (c : Cell) (address : Nat) : Bool := c.base ≤ address && address < c.base + c.size

/-- Whether an address is that of one of the bytes or the one just past them. -/
def spans (c : Cell) (address : Nat) : Bool :=
  c.size != 0 && c.base ≤ address && address ≤ c.base + c.size

end Cell

/-- The cells of a machine. -/
structure Memory where
  /-- The live cells, newest first. -/
  cells : List Cell
  /-- The cells that were freed, the last one first. -/
  freed : List Cell
  /-- How many cells were made. -/
  made : Nat
  /-- The address of the next cell. -/
  next : Nat
deriving DecidableEq, Repr

namespace Memory

/-- The address of the first cell. -/
def start : Nat := 0x5d3a9c41b2a0

/-- The address that no cell reaches. -/
def limit : Nat := 0x700000000000

/-- The address of a cell without bytes. -/
def emptyAddress : Nat := 1

/-- What lies between two cells at least. -/
def gap : Nat := 16

/-- The memory without cells. -/
def empty : Memory := ⟨[], [], 0, start⟩

/-- The number of live cells. -/
def size (m : Memory) : Nat := m.cells.length

/-- Whether there are no live cells. -/
def isEmpty (m : Memory) : Bool := m.cells.isEmpty

/-- The memory with a new cell at `base`. -/
def insertAt (m : Memory) (base : Nat) (bytes : Array UInt8) : Memory :=
  { m with cells := ⟨m.made, base, bytes⟩ :: m.cells, made := m.made + 1 }

/-- The address of a new cell that holds `bytes`, and the memory with it. -/
def allocBytes (m : Memory) (bytes : Array UInt8) : Except Fault (Nat × Memory) :=
  if bytes.size = 0 then .ok (emptyAddress, m.insertAt emptyAddress bytes)
  else
    let next := m.next + (bytes.size / gap + 2) * gap
    if limit ≤ next then .error .outOfMemory
    else .ok (m.next, { m.insertAt m.next bytes with next })

/-- A new cell of `size` zeros. -/
def alloc (m : Memory) (size : Nat) : Except Fault (Nat × Memory) :=
  if limit ≤ size then .error .outOfMemory else m.allocBytes (Array.replicate size 0)

/-- A new cell that holds a text with a zero behind it. -/
def allocText (m : Memory) (text : List UInt8) : Except Fault (Nat × Memory) :=
  m.allocBytes (text.toArray.push 0)

/-- Frees the newest cell that starts at an address. -/
def dealloc (m : Memory) (address : Nat) : Except Fault Memory :=
  match m.cells.find? (·.base == address) with
  | none => .error .invalidFree
  | some c =>
    .ok { m with cells := m.cells.eraseP (·.base == address), freed := c :: m.freed }

/-- The cell that owns an address. -/
def owner? (m : Memory) (address : Nat) : Option Cell := m.cells.find? (·.owns address)

/-- Replaces the byte at an address; an address in no cell changes nothing. -/
def setByte (m : Memory) (address : Nat) (b : UInt8) : Memory :=
  { m with cells := m.cells.map fun c =>
      if c.owns address then { c with bytes := c.bytes.setIfInBounds (address - c.base) b } else c }

end Memory

end StackLang
