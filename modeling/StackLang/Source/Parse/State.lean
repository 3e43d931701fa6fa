import StackLang.Source.Diagnostic
import StackLang.Source.Program

/-!
# State of a parse

A parse goes over the tokens once and builds the program as it goes. Blocks and labels are stacks
of their own: a block is opened by `if`, `while` or a function, a label by `then`, `else` or a
function, and `end` closes one of each.
-/

namespace StackLang.Source

/-- An open block. -/
inductive Block where
  | branch
  | otherwise
  | loop
  | function (name : String)
deriving DecidableEq, Repr

/-- Where a parse is. -/
structure ParseState where
  rest : List Token
  /-- The location that is reported when the tokens run out. -/
  finish : Location
  program : Program := .empty
  /-- The open blocks, innermost first. -/
  blocks : List Block := []
  /-- The open labels, latest first. -/
  labels : List Nat := []
  nextLabel : Nat := 1

/-- A step of a parse, which the first fault ends. -/
abbrev Parse := StateT ParseState (Except Diagnostic)

namespace Parse

/-- The state in front of the tokens. -/
def start (tokens : List Token) : ParseState where
  rest := tokens
  finish := match tokens.getLast? with
    | some t => t.loc
    | none => ⟨"", 0, 0⟩

variable {α : Type}

/-- Rejects the text. -/
def fail (loc : Location) (cause : Cause) : Parse α := throw ⟨loc, cause⟩

/-- Rejects the text for its end. -/
def outOfTokens : Parse α := do
  let s ← get
  fail s.finish .outOfTokens

/-- The kind of the next token. -/
def peek : Parse (Option TokenKind) := do
  let s ← get
  return s.rest.head?.map Token.kind

/-- Whether the next token is of the given kind. -/
def nextIs (kind : TokenKind) : Parse Bool := do
  return (← peek) == some kind

/-- Passes over tokens. -/
def skip (n : Nat) : Parse Unit := modify fun s => { s with rest := s.rest.drop n }

/-- Takes the next token. -/
def next : Parse Token := do
  let s ← get
  match s.rest with
  | t :: rest =>
    set { s with rest }
    return t
  | [] => outOfTokens

/-- Rejects a token in the place of another one. -/
def mismatch (expected : String) (t : Token) : Parse α :=
  fail t.loc (.expectedToken expected t.kind.name)

/-- Takes the given mark. -/
def expect (m : Mark) : Parse Unit := do
  let t ← next
  if t.kind = .mark m then return () else mismatch m.name t

/-- Takes an identifier. -/
def ident : Parse (String × Location) := do
  let t ← next
  match t.kind with
  | .ident name => return (name, t.loc)
  | _ => mismatch (TokenKind.ident "").name t

/-- Takes a string. -/
def string : Parse String := do
  let t ← next
  match t.kind with
  | .string text => return text
  | _ => mismatch (TokenKind.string "").name t

/-- Items with commas between them up to the mark `close`. Any other token behind an item stands in
the place of `wanted`. There are at most `limit` tokens left, and each item takes one at least. -/
def listUpTo (close wanted : Mark) (item : Parse α) : Nat → Parse (List α)
  | 0 => outOfTokens
  | limit + 1 => do
    let x ← item
    let t ← next
    if t.kind = .mark close then return [x]
    else if t.kind = .mark .comma then return x :: (← listUpTo close wanted item limit)
    else mismatch wanted.name t

/-- Items between parentheses, or nothing between them. -/
def parenthesized (wanted : Mark) (item : Parse α) (limit : Nat) : Parse (List α) := do
  expect .openParen
  if ← nextIs (.mark .closeParen) then
    skip 1
    return []
  else listUpTo .closeParen wanted item limit

/-- The program built so far. -/
def program : Parse Program := do
  let s ← get
  return s.program

/-- Changes the program. -/
def update (f : Program → Program) : Parse Unit :=
  modify fun s => { s with program := f s.program }

/-- The expression at a position. -/
def expr (id : ExprId) : Parse Expr := do
  return (← program).expr id

/-- The position of a new expression. -/
def newExpr (kind : ExprKind) (type : DataType) (loc : Location) : Parse ExprId := do
  let s ← get
  let (id, exprs) := s.program.exprs.alloc ⟨kind, type, loc⟩
  set { s with program := { s.program with exprs } }
  return id

/-- Adds a symbol. -/
def declare (symbol : Symbol) : Parse Unit :=
  update fun p => { p with symbols := p.symbols.push symbol }

/-- Adds a statement. -/
def emit (loc : Location) (statement : Statement) : Parse Unit :=
  update fun p => { p with statements := p.statements.push ⟨statement, loc⟩ }

/-- Opens a block. -/
def enter (block : Block) : Parse Unit :=
  modify fun s => { s with blocks := block :: s.blocks }

/-- Opens the next label. -/
def openLabel : Parse Nat := do
  let s ← get
  set { s with labels := s.nextLabel :: s.labels, nextLabel := s.nextLabel + 1 }
  return s.nextLabel

/-- The function whose body the parse is in, of nested ones the innermost. -/
def currentFunction : Parse (Option String) := do
  let s ← get
  return s.blocks.findSome? fun
    | .function name => some name
    | _ => none

/-- The variable that a name means here. -/
def variableNamed (name : String) (loc : Location) : Parse Variable := do
  match (← program).resolve? (← currentFunction) name with
  | some v => return v
  | none => fail loc (.unknownVariable name)

/-- The function that a call of a name means. -/
def functionNamed (name : String) (loc : Location) : Parse Function := do
  match (← program).function? name with
  | some f => return f
  | none => fail loc (.unknownFunction name)

/-- The structure of a name. -/
def structNamed (name : String) (loc : Location) : Parse StructType := do
  match (← program).struct? name with
  | some s => return s
  | none => fail loc (.unknownStruct name)

/-- The field of a variable. A variable that points to no structure is looked up as the structure
of its own name. -/
def fieldNamed (v : Variable) (field : String) (loc : Location) : Parse Variable := do
  let s ← structNamed (v.struct.getD v.name) loc
  match s.field? field with
  | some f => return f
  | none => fail loc (.unknownField s.name field)

end Parse

end StackLang.Source
