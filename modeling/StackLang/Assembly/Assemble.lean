import StackLang.Assembly.Statement
import StackLang.Bytecode.Program

/-!
# Assembling

The lines of a text are collected into a `Draft`: instructions whose jump operands may still be
labels, the string table without repetitions, and the index that each label stands for. Index zero
always holds a `nop`, so no label stands for zero. When every line is read the labels are resolved
in the order of the instructions, the entry label last.
-/

namespace StackLang.Assembly

open Bytecode

/-- An instruction and the label, with the line of its use, that its operand waits for. -/
structure Slot where
  instruction : Instruction
  target : Option (String × Nat)
deriving DecidableEq, Repr

/-- What has been assembled so far. -/
structure Draft where
  strings : List (List UInt8)
  slots : Array Slot
  labels : List (String × Nat)
  entry : Option (String × Nat)
deriving Repr

namespace Draft

/-- The draft of an empty text. -/
def empty : Draft := ⟨[], #[⟨{ op := .nop }, none⟩], [], none⟩

/-- Appends an instruction. -/
def push (d : Draft) (i : Instruction) (target : Option (String × Nat)) : Draft :=
  { d with slots := d.slots.push ⟨i, target⟩ }

/-- The index of a string in the table, and the table with the string in it. -/
def intern (strings : List (List UInt8)) (s : List UInt8) : Nat × List (List UInt8) :=
  match strings.findIdx? (· == s) with
  | some index => (index, strings)
  | none => (strings.length, strings ++ [s])

/-- Appends an instruction as it is written on line `line`. -/
def add (d : Draft) (line : Nat) (op : Op) : Operand → Draft
  | .none => d.push { op } none
  | .literal v => d.push { op, value := v.word, tag := v.tag } none
  | .register r => d.push { op, tag := .reg, register := UInt64.ofNat r } none
  | .text s =>
    let (index, strings) := intern d.strings s
    { d with strings }.push { op, value := .ofNat index } none
  | .load r none => d.push { op, tag := .top, register := UInt64.ofNat r } none
  | .load r (some v) =>
    d.push { op, value := v.word, tag := v.tag, register := UInt64.ofNat r } none
  | .index n => d.push { op, value := n } none
  | .label name => d.push { op } (some (name, line))

/-- What a statement on line `line` adds. -/
def addStatement (d : Draft) (line : Nat) : Statement → Except Error Draft
  | .blank => .ok d
  | .label name =>
    if (d.labels.lookup name).isSome then .error ⟨line, .labelDefined name⟩
    else .ok { d with labels := (name, d.slots.size) :: d.labels }
  | .entrypoint name => .ok { d with entry := some (name, line) }
  | .instruction op operand => .ok (d.add line op operand)

/-- What a line adds: its statement, which must be all of the line. -/
def addLine (d : Draft) (l : Line) : Except Error Draft := do
  let (statement, rest) ← Reader.statement.run l
  let d ← d.addStatement l.number statement
  if statement = .blank then return d
  else
    let _ ← Reader.finish.run rest
    return d

/-- The index that a label used on line `line` stands for. -/
def resolve (labels : List (String × Nat)) (name : String) (line : Nat) : Except Error Nat :=
  match labels.lookup name with
  | some index => .ok index
  | none => .error ⟨line, .unknownLabel name⟩

/-- An instruction with its operand resolved. -/
def resolveSlot (labels : List (String × Nat)) (s : Slot) : Except Error Instruction :=
  match s.target with
  | none => .ok s.instruction
  | some (name, line) => do
    return { s.instruction with value := .ofNat (← resolve labels name line) }

/-- The program of a draft. -/
def finish (d : Draft) : Except Error Program := do
  let code ← d.slots.mapM (resolveSlot d.labels)
  let entrypoint ← match d.entry with
    | some (name, line) => resolve d.labels name line
    | none => .ok 0
  return { strings := d.strings, entrypoint, code }

end Draft

/-- The program of a text. -/
def assembleBytes (bytes : List UInt8) : Except Error Program := do
  let d ← (lines bytes).foldlM Draft.addLine .empty
  d.finish

/-- The program of a text. -/
def assemble (text : String) : Except Error Program := assembleBytes (Text.Utf8.encode text.toList)

end StackLang.Assembly
