import StackLang.Source.Parse.Declaration

/-!
# Parsing statements

The first token of a statement decides its form; behind a name the second one does, and behind a
name and a parenthesis the token after the closing one. Blocks have no form of their own: `if`,
`while`, `then`, `else`, `end` and the start of a function are statements that open and close
blocks and labels.
-/

namespace StackLang.Source.Parse

/-- Rejects a value whose type does not meet the type of what it is assigned to. -/
def checkAssigned (type : DataType) (value : ExprId) : Parse Unit := do
  let e ← expr value
  if e.type.meets type then return ()
  else fail e.loc (.typeMismatch type e.shownType)

/-- `name = value`, from the value on. -/
def assignment (name : String) (loc : Location) (limit : Nat) : Parse Unit := do
  let v ← variableNamed name loc
  if v.isConst then fail loc (.constVariable name)
  else
    let value ← expression limit
    checkAssigned v.type value
    emit loc (.assign name value)

/-- `name.field = value`, from the field on. -/
def fieldAssignment (name : String) (loc : Location) (limit : Nat) : Parse Unit := do
  let (field, fieldLoc) ← ident
  expect .assign
  let value ← expression limit
  let v ← variableNamed name loc
  let f ← fieldNamed v field fieldLoc
  if f.isConst then fail loc (.constField field)
  else
    let e ← expr value
    if e.type.meets f.type then emit loc (.assignField name field value)
    else fail loc (.fieldType field)

/-- `name[index] = value`, from the index on. -/
def elementAssignment (name : String) (loc : Location) (limit : Nat) : Parse Unit := do
  let index ← expression limit
  expect .closeBracket
  let t ← next
  match t.kind with
  | .mark .assign =>
    let v ← variableNamed name loc
    let value ← expression limit
    checkAssigned v.type value
    emit loc (.assignElement name index value)
  | .mark .dot => fail t.loc .elementFieldAssign
  | kind => fail t.loc (.unexpectedToken kind.name)

/-- The tokens behind the parenthesis that closes the first one, where `depth` are open already. -/
def afterGroup? (depth : Nat) : List Token → Option (List Token)
  | [] => none
  | t :: rest =>
    if t.kind = .mark .openParen then afterGroup? (depth + 1) rest
    else if t.kind = .mark .closeParen then
      if depth ≤ 1 then some rest else afterGroup? (depth - 1) rest
    else afterGroup? depth rest

/-- An expression as a statement. The declaration of a library goes to a table of its own. -/
def expressionStatement (loc : Location) (limit : Nat) : Parse Unit := do
  let value ← expression limit
  match (← expr value).kind with
  | .library _ => update fun p => { p with libraries := p.libraries.push ⟨value, loc⟩ }
  | _ => emit loc (.evaluate value)

/-- A name and a parenthesis: the start of a function if a colon stands behind the closing one,
else a call. -/
def callOrFunction (name : String) (loc : Location) (limit : Nat) : Parse Unit := do
  let s ← get
  match afterGroup? 0 (s.rest.drop 1) with
  | none => fail s.finish (.expectedToken Mark.closeParen.name "end of input")
  | some behind =>
    if behind.head?.map Token.kind = some (.mark .colon) then
      skip 1
      functionDeclaration name loc limit
    else if (s.program.foreign? name).isSome then expressionStatement loc limit
    else
      skip 1
      let f ← functionNamed name loc
      let args ← arguments (expression limit) limit
      checkCall name loc f args
      emit loc (.call name args)

/-- A statement that starts with a name. -/
def nameStatement (name : String) (loc : Location) (limit : Nat) : Parse Unit := do
  let s ← get
  match (s.rest.drop 1).head?.map Token.kind with
  | some (.mark .colon) => variableDeclaration limit
  | some (.mark .assign) =>
    skip 2
    assignment name loc limit
  | some (.mark .dot) =>
    skip 2
    fieldAssignment name loc limit
  | some (.mark .openBracket) =>
    skip 2
    elementAssignment name loc limit
  | some (.mark .openParen) => callOrFunction name loc limit
  | _ => expressionStatement loc limit

/-- `else`: the branch before it ends and the block is no longer one that may have an `else`. -/
def elseStatement (loc : Location) : Parse Unit := do
  let s ← get
  match s.blocks, s.labels with
  | .branch :: blocks, closed :: labels =>
    set { s with blocks := .otherwise :: blocks, labels }
    let opened ← openLabel
    emit loc (.otherwise closed opened)
  | _, _ => fail loc .elseWithoutIf

/-- `end`: closes a block and a label. -/
def endStatement (loc : Location) : Parse Unit := do
  let s ← get
  match s.blocks, s.labels with
  | _ :: blocks, label :: labels =>
    set { s with blocks, labels }
    emit loc (.closing label)
  | _, _ => fail loc .endWithoutBlock

/-- The statement that starts with the given keyword. -/
def keywordStatement (k : Keyword) (loc : Location) (limit : Nat) : Parse Unit := do
  match k with
  | .writeWord =>
    skip 1
    emit loc (.native .write (← expression limit))
  | .exitWord =>
    skip 1
    emit loc (.native .exit (← expression limit))
  | .returnWord =>
    skip 1
    emit loc (.giveBack (← expression limit))
  | .ifWord =>
    skip 1
    enter .branch
    emit loc (.ifThen (← expression limit))
  | .whileWord =>
    skip 1
    enter .loop
    emit loc (.whileThen (← expression limit))
  | .thenWord =>
    skip 1
    emit loc (.opening (← openLabel))
  | .elseWord =>
    skip 1
    elseStatement loc
  | .endWord =>
    skip 1
    endStatement loc
  | .structWord => structDeclaration limit
  | .constWord => fail loc (.unexpectedToken k.name)

/-- The statement that starts with the given token. -/
def statement (t : Token) (limit : Nat) : Parse Unit :=
  match t.kind with
  | .keyword k => keywordStatement k t.loc limit
  | .ident name => nameStatement name t.loc limit
  | .string _ | .char _ | .integer _ | .float _ | .builtin _ => expressionStatement t.loc limit
  | .mark m => fail t.loc (.unexpectedToken m.name)
  | .type type => fail t.loc (.unexpectedToken (TokenKind.type type).name)

/-- Statements up to the end of the tokens, of which at most `limit` are left. -/
def statements : Nat → Parse Unit
  | 0 => return ()
  | limit + 1 => do
    let s ← get
    match s.rest with
    | [] => return ()
    | t :: _ =>
      statement t (limit + 1)
      statements limit

end Parse

/-- The program of a row of tokens. -/
def parse (tokens : List Token) : Except Diagnostic Program := do
  let ((), s) ← (Parse.statements tokens.length).run (Parse.start tokens)
  return s.program

end StackLang.Source
