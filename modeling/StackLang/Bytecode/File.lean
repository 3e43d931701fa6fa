import StackLang.Bytecode.Program

/-!
# Program files

A file holds the number of strings, each string behind its length, the entry point, and one record
of eighteen bytes for each instruction up to the end of the file. All numbers are naturals of
eight bytes, lowest byte first. A file is read only if it has no byte to spare, so each program
has one file and each readable file one program.
-/

namespace StackLang.Bytecode

/-- Why a file is no program. -/
inductive FileError where
  | noStringCount
  | noStringLength (index : Nat)
  | truncatedString (index : Nat)
  | noEntrypoint
  | truncatedInstruction (index : Nat)
  | unknownOpcode (index code : Nat)
  | unknownTag (index code : Nat)
  | entrypointPastEnd (entrypoint count : Nat)
deriving DecidableEq, Repr

namespace FileError

/-- The cause of a read that met the end of the file. -/
def shortRead : String := "failed to fill whole buffer"

/-- The text of an error. -/
def message : FileError → String
  | .noStringCount => s!"reading the string count: {shortRead}"
  | .noStringLength i => s!"reading string {i}: {shortRead}"
  | .truncatedString i => s!"string {i} is truncated"
  | .noEntrypoint => s!"reading the entry point: {shortRead}"
  | .truncatedInstruction i => s!"instruction {i} is truncated: {shortRead}"
  | .unknownOpcode i b => s!"instruction {i}: unknown opcode {b}"
  | .unknownTag i b => s!"instruction {i}: unknown type tag {b}"
  | .entrypointPastEnd e n => s!"entry point {e} is past the last instruction ({n})"

end FileError

/-- The length of an instruction record. -/
def recordSize : Nat := 18

namespace Instruction

/-- The record of an instruction: operation, operand, tag, register. -/
def toBytes (i : Instruction) : List UInt8 :=
  UInt8.ofNat i.op.code :: i.value.toBytes ++
    UInt8.ofNat i.tag.code :: (Word.mk i.register).toBytes

/-- The instruction of record number `index`. -/
def ofBytes (index : Nat) (record : List UInt8) : Except FileError Instruction :=
  if record.length < recordSize then .error (.truncatedInstruction index)
  else
    let opByte := (record.headD 0).toNat
    let tagByte := ((record.drop 9).headD 0).toNat
    match Op.ofCode? opByte, Tag.ofCode? tagByte with
    | none, _ => .error (.unknownOpcode index opByte)
    | _, none => .error (.unknownTag index tagByte)
    | some op, some tag => .ok {
        op, tag
        value := Word.ofBytes ((record.drop 1).take 8)
        register := (Word.ofBytes ((record.drop 10).take 8)).bits }

end Instruction

namespace Program

/-- A natural of eight bytes. -/
def sizeBytes (n : Nat) : List UInt8 := (Word.ofNat n).toBytes

/-- A string behind its length. -/
def stringBytes (s : List UInt8) : List UInt8 := sizeBytes s.length ++ s

/-- The string table and the entry point. -/
def headerBytes (strings : List (List UInt8)) (entrypoint : Nat) : List UInt8 :=
  sizeBytes strings.length ++ strings.flatMap stringBytes ++ sizeBytes entrypoint

/-- The file of a program. -/
def toBytes (p : Program) : List UInt8 :=
  headerBytes p.strings p.entrypoint ++ p.code.toList.flatMap Instruction.toBytes

/-- A natural of eight bytes from the start of a file. -/
def size? (bytes : List UInt8) : Option (Nat × List UInt8) :=
  if bytes.length < 8 then none else some ((Word.ofBytes (bytes.take 8)).toNat, bytes.drop 8)

/-- `count` strings, the first of them number `index`, and the bytes after them. -/
def readStrings : Nat → Nat → List UInt8 → Except FileError (List (List UInt8) × List UInt8)
  | 0, _, bytes => .ok ([], bytes)
  | count + 1, index, bytes =>
    match size? bytes with
    | none => .error (.noStringLength index)
    | some (n, rest) =>
      if rest.length < n then .error (.truncatedString index)
      else do
        let (strings, after) ← readStrings count (index + 1) (rest.drop n)
        return (rest.take n :: strings, after)

/-- The bytes in records; the last one may be short. -/
def records (bytes : List UInt8) : List (List UInt8) :=
  if _h : bytes = [] then []
  else bytes.take recordSize :: records (bytes.drop recordSize)
termination_by bytes.length
decreasing_by
  have := List.length_pos_iff.2 _h
  simp only [List.length_drop, recordSize]
  omega

/-- The instructions of a row of records, the first of them number `index`. -/
def readRecords : Nat → List (List UInt8) → Except FileError (List Instruction)
  | _, [] => .ok []
  | index, r :: rest => do
    let i ← Instruction.ofBytes index r
    return i :: (← readRecords (index + 1) rest)

/-- The program of a file. -/
def ofBytes (bytes : List UInt8) : Except FileError Program := do
  let some (count, bytes) := size? bytes | .error .noStringCount
  let (strings, bytes) ← readStrings count 0 bytes
  let some (entrypoint, bytes) := size? bytes | .error .noEntrypoint
  let code ← readRecords 0 (records bytes)
  if code.length < entrypoint then .error (.entrypointPastEnd entrypoint code.length)
  else return { strings, entrypoint, code := code.toArray }

end Program

end StackLang.Bytecode
