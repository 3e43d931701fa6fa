import StackLang.Source.Parse.Expression

/-!
# Parsing declarations

Variables, structures and functions share the signature `name: const type[size]`, where `const`
and the brackets may be missing. A first value takes the type that is declared for it, and so do
the values of a structure; the elements of an array keep theirs.
-/

namespace StackLang.Source.Parse

/-- The type of a signature: a type, or a structure, which is a pointer to it. -/
def signatureType (v : Variable) : Parse Variable := do
  let t ← next
  match t.kind with
  | .type type => return { v with type }
  | .ident name =>
    if ((← program).struct? name).isSome then return { v with type := .ptr, struct := some name }
    else fail t.loc (.unknownType name)
  | kind => fail t.loc (.expectedType kind.name)

/-- The size behind a type, if there is one. -/
def signatureSize (limit : Nat) : Parse (Option ExprId) := do
  if ← nextIs (.mark .openBracket) then
    skip 1
    let size ← expression limit
    expect .closeBracket
    return some size
  else return none

/-- A signature: the variable, the size if it is an array, and where it starts. A variable of the
type `str` is an array, too. -/
def signature (limit : Nat) : Parse (Variable × Option ExprId × Location) := do
  let (name, loc) ← ident
  expect .colon
  let isConst ← nextIs (.keyword .constWord)
  if isConst then skip 1
  let v ← signatureType { name, type := .void, isConst }
  let size ← signatureSize limit
  return ({ v with isArray := size.isSome || v.type == .str }, size, loc)

/-- Rejects a value that can not be the first one of a variable. -/
def checkValue (v : Variable) (value : ExprId) (loc : Location) : Parse Unit := do
  let e ← expr value
  if e.type.meets v.type then return ()
  else fail loc (.variableType v.name v.type e.shownType)

/-- An element of an array. -/
def element (v : Variable) (limit : Nat) : Parse ExprId := do
  let value ← expression limit
  checkValue v value (← expr value).loc
  return value

/-- The first elements of an array, between brackets. -/
def elements (v : Variable) (limit : Nat) : Parse (List ExprId) := do
  expect .openBracket
  listUpTo .closeBracket .comma (element v limit) limit

/-- Gives values the types of the fields in order. -/
def retypeFields (loc : Location) (pairs : List (Variable × ExprId)) : Parse Unit :=
  pairs.forM fun (field, value) => do
    let e ← expr value
    if e.type.meets field.type then update fun p => p.retype value field.type
    else fail loc (.fieldType field.name)

/-- The value of a variable of a structure type: the values of its fields, or any other pointer. -/
def structValue (v : Variable) (loc : Location) (limit : Nat) : Parse ExprId := do
  let value ← expression limit
  let e ← expr value
  if e.type ≠ .ptr then fail loc (.expectedStruct e.shownType)
  else
    match e.kind with
    | .record values =>
      let s ← structNamed (v.struct.getD "") loc
      if s.fields.length ≠ values.length then
        fail loc (.fieldCount s.name s.fields.length values.length)
      else
        retypeFields loc (s.fields.zip values)
        return value
    | _ => return value

/-- The value of a variable that is neither a structure nor an array of its own. -/
def plainValue (v : Variable) (loc : Location) (limit : Nat) : Parse ExprId := do
  let value ← expression limit
  checkValue v value loc
  update fun p => p.retype value v.type
  return value

/-- What a variable starts with. -/
def initialValues (v : Variable) (loc : Location) (limit : Nat) : Parse (List ExprId) := do
  if v.isArray && v.type != .str then elements v limit
  else if v.isStruct then return [← structValue v loc limit]
  else return [← plainValue v loc limit]

/-- `signature = value`. The declaration of a global variable goes to a table of its own. -/
def variableDeclaration (limit : Nat) : Parse Unit := do
  let (v, size, loc) ← signature limit
  expect .assign
  let values ← initialValues v loc limit
  let v := { v with owner := ← currentFunction }
  let d : Declaration := { target := v, size, values }
  if v.isGlobal then update fun p => { p with globals := p.globals.push ⟨d, loc⟩ }
  else emit loc (.declare d)
  declare (.variable v)

/-- Fields up to the closing brace, each with a comma behind it. -/
def fields : Nat → Parse (List Variable)
  | 0 => outOfTokens
  | limit + 1 => do
    if ← nextIs (.mark .closeCurly) then
      skip 1
      return []
    else
      let (field, _, _) ← signature limit
      expect .comma
      return field :: (← fields limit)

/-- `struct name` with fields between braces. The name is known in the fields already. -/
def structDeclaration (limit : Nat) : Parse Unit := do
  let t ← next
  let (name, _) ← ident
  let slot := (← program).symbols.size
  declare (.struct { name, fields := [] })
  expect .openCurly
  let s : StructType := { name, fields := ← fields limit }
  update fun p => { p with
    symbols := p.symbols.setIfInBounds slot (.struct s)
    structs := p.structs.push ⟨s, t.loc⟩ }

/-- The type of a function. -/
def returnType : Parse DataType := do
  let t ← next
  match t.kind with
  | .type type => return type
  | .ident name =>
    if ((← program).struct? name).isSome then return .ptr
    else fail t.loc (.unknownType name)
  | kind => fail t.loc (.unexpectedToken kind.name)

/-- `name(signature, ...): type`, from the parenthesis on. The statements of the body follow. -/
def functionDeclaration (name : String) (loc : Location) (limit : Nat) : Parse Unit := do
  enter (.function name)
  let param : Parse Variable := do
    let (v, _, _) ← signature limit
    return { v with owner := some name }
  let params ← parenthesized .closeParen param limit
  expect .colon
  let type ← returnType
  let label ← openLabel
  let f : Function := { name, params, returnType := type, label }
  update fun p => { p with functions := p.functions.push f }
  declare (.function f)
  emit loc (.function f)

end StackLang.Source.Parse
