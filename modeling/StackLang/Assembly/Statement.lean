import StackLang.Assembly.Line

/-!
# Statements

A line holds at most one statement: a label with its colon, the directive that names the entry
label, or an instruction with its operand. A reader takes the tokens of one line in order. At the
end of the line it gives the line feed, counted to the next line, or nothing at the end of the
text; a fault in the row is raised where the reader meets it.
-/

namespace StackLang.Assembly

open Bytecode Numeric

/-- The operand of an instruction as it is written. -/
inductive Operand where
  | none
  | literal (value : Value)
  | register (index : Nat)
  | text (bytes : List UInt8)
  /-- A register and what to load: a literal, or the top of the stack. -/
  | load (register : Nat) (source : Option Value)
  | index (n : Word)
  | label (name : String)
deriving DecidableEq, Repr

/-- What a line says. -/
inductive Statement where
  | blank
  | label (name : String)
  | entrypoint (name : String)
  | instruction (op : Op) (operand : Operand)
deriving DecidableEq, Repr

/-- A reader of the rest of a line. -/
abbrev Reader (α : Type) := StateT Line (Except Error) α

namespace Reader

/-- Rejects the line `number`. -/
def fail {α : Type} (number : Nat) (cause : Cause) : Reader α :=
  fun _ => .error ⟨number, cause⟩

/-- The number of the line that the last token belongs to. -/
def lineNumber : Reader Nat := return (← get).number

/-- The next token, `none` at the end of the text. -/
def next : Reader (Option Token) := fun l =>
  match l.tokens with
  | t :: rest => .ok (some t, { l with tokens := rest })
  | [] =>
    match l.ending with
    | .newline => .ok (some .newline, { l with number := l.number + 1 })
    | .endOfText => .ok (none, l)
    | .fault cause => .error ⟨l.number, cause⟩

/-- Rejects what the last token was read for. -/
def reject {α : Type} (cause : Cause) : Reader α := do
  fail (← lineNumber) cause

/-- A register index that the machine has. -/
def register (index : Nat) : Reader Nat :=
  if registerCount ≤ index then reject (.noSuchRegister index) else return index

/-- An integer literal under a type word. -/
def typedNumber (tag : Tag) (n : Word) : Word :=
  match tag with
  | .u8 => .ofNat (n.low 8)
  | .u16 => .ofNat (n.low 16)
  | .u32 => .ofNat (n.low 32)
  | .float => .ofNat (Binary.single.ofInt n.toInt)
  | .double => .ofNat (Binary.double.ofInt n.toInt)
  | .char => .ofNat (n.low 8)
  | _ => n

/-- A literal that starts with the token just read; a type word may stand in front of it. -/
def literal (first : Option Token) : Reader Value := do
  let line ← lineNumber
  match first with
  | some (.type tag) =>
    match ← next, tag with
    | some (.number n), tag => return ⟨typedNumber tag n, tag⟩
    | some (.float p), .float => return .float (Binary.double.convert .single p)
    | some (.float p), .double => return .double p
    | some (.char c), tag => return ⟨.ofNat c.toNat, tag⟩
    | found, tag => fail line (.expectedTyped tag found)
  | some (.number n) => return ⟨n, .int⟩
  | some (.float p) => return .float (Binary.double.convert .single p)
  | some (.char c) => return .char c
  | found => fail line (.expectedLiteral found)

/-- The operand of `op`. -/
def operand (op : Op) : Reader Operand := do
  match op with
  | .push =>
    match ← next with
    | some (.register index) => return .register (← register index)
    | first => return .literal (← literal first)
  | .pushStr =>
    match ← next with
    | some (.text bytes) => return .text bytes
    | found => reject (.expectedString found)
  | .mov =>
    match ← next with
    | some (.register index) =>
      let index ← register index
      match ← next with
      | some .top => return .load index none
      | first => return .load index (some (← literal first))
    | found => reject (.expectedRegister found)
  | .call | .jmp | .zjmp | .nzjmp =>
    match ← next with
    | some (.number n) => return .index n
    | some (.name name) => return .label name
    | found => reject (.expectedTarget found)
  | .native =>
    match ← next with
    | some (.number n) => return .index n
    | found => reject (.expectedNative found)
  | _ => return .none

/-- A statement without a check of what follows it. -/
def statement : Reader Statement := do
  match ← next with
  | none | some .newline => return .blank
  | some first =>
    let line ← lineNumber
    match first with
    | .instruction .entrypoint =>
      match ← next with
      | some (.name name) => return .entrypoint name
      | found => fail line (.expectedEntryLabel found)
    | .instruction op => return .instruction op (← operand op)
    | .name name =>
      match ← next with
      | some .colon => return .label name
      | _ => fail line .expectedColon
    | found => fail line (.expectedStatement found)

/-- The end of the line. -/
def finish : Reader Unit := do
  match ← next with
  | none | some .newline => return
  | some found => reject (.expectedNewline found)

end Reader

end StackLang.Assembly
