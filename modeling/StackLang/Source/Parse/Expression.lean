import StackLang.Source.Parse.Library

/-!
# Parsing expressions

An expression is a row of operands with operators between them. `climb` gives each operator its
operands by precedence: the operators of one precedence associate to the left. The parsers of the
parts take the parser `inner` of the expressions in them, and `expression` ties the knot.

The bound `limit` on the tokens that are left is what the recursion goes down by. Where it is zero
there is no token, so that the bound never decides anything.
-/

namespace StackLang.Source.Parse

/-- Checks the arguments of a call against the types of the parameters, of which there must be as
many. `cause` says what is wrong with an argument of another type. -/
def checkArgs {α : Type} (name : String) (loc : Location) (typeOf : α → DataType)
    (cause : α → Expr → Cause) (params : List α) (args : List ExprId) : Parse Unit := do
  if params.length ≠ args.length then
    fail loc (.argumentCount name params.length args.length)
  else
    (params.zip args).forM fun (param, arg) => do
      let e ← expr arg
      if e.type.meets (typeOf param) then return ()
      else fail e.loc (cause param e)

/-- Checks the arguments of a call of a function. -/
def checkCall (name : String) (loc : Location) (f : Function) (args : List ExprId) :
    Parse Unit :=
  checkArgs name loc Variable.type (fun v e => .argumentType v.name v.type e.shownType)
    f.params args

/-- Checks the arguments of a call of a foreign function. -/
def checkForeignCall (loc : Location) (f : ForeignFunction) (args : List ExprId) : Parse Unit :=
  checkArgs f.name loc ForeignParam.type (fun p e => .typeMismatch p.type e.shownType)
    f.params args

/-- Arguments between parentheses. -/
def arguments (inner : Parse ExprId) (limit : Nat) : Parse (List ExprId) :=
  parenthesized .closeParen inner limit

/-- Expressions that each follow a comma. -/
def afterCommas (inner : Parse ExprId) : Nat → Parse (List ExprId)
  | 0 => return []
  | limit + 1 => do
    if ← nextIs (.mark .comma) then
      skip 1
      let x ← inner
      return x :: (← afterCommas inner limit)
    else return []

/-- What follows a variable of the given name in front of brackets: an element of an array, or a
field of it. -/
def indexed (inner : Parse ExprId) (name : String) (loc : Location) : Parse ExprId := do
  let v ← variableNamed name loc
  expect .openBracket
  let index ← inner
  expect .closeBracket
  if ← nextIs (.mark .dot) then
    skip 1
    let (field, fieldLoc) ← ident
    let type ← if v.isStruct then
        let f ← fieldNamed v field fieldLoc
        pure f.type
      else pure v.type
    newExpr (.elementField name index field) type loc
  else newExpr (.element name index) v.type loc

/-- An expression that starts with a name: a call, an element, a field or a variable. The name of a
foreign function means nothing else. -/
def named (inner : Parse ExprId) (limit : Nat) (name : String) (loc : Location) :
    Parse ExprId := do
  match (← program).foreign? name with
  | some f =>
    let args ← arguments inner limit
    checkForeignCall loc f args
    newExpr (.foreignCall name args) f.returnType loc
  | none =>
    let kind ← peek
    if kind = some (.mark .openParen) then
      let f ← functionNamed name loc
      let args ← arguments inner limit
      checkCall name loc f args
      newExpr (.call name args) f.returnType loc
    else if kind = some (.mark .openBracket) then indexed inner name loc
    else
      let v ← variableNamed name loc
      if kind = some (.mark .dot) then
        skip 1
        let (field, fieldLoc) ← ident
        let f ← fieldNamed v field fieldLoc
        newExpr (.field name field) f.type loc
      else newExpr (.variable name) v.type loc

/-- An operand of an operator. -/
def operand (inner : Parse ExprId) (limit : Nat) : Parse ExprId := do
  let t ← next
  match t.kind with
  | .integer n => newExpr (.integer n) .int t.loc
  | .float pattern => newExpr (.float pattern) .float t.loc
  | .string text => newExpr (.text text) .char t.loc
  | .char b => newExpr (.char b) .char t.loc
  | .builtin .dll =>
    let l ← library limit
    newExpr (.library l) Builtin.dll.returnType t.loc
  | .builtin b =>
    let first ← inner
    let more ← afterCommas inner limit
    newExpr (.builtin b (first :: more)) b.returnType t.loc
  | .mark .openCurly =>
    let values ← listUpTo .closeCurly .comma inner limit
    newExpr (.record values) .ptr t.loc
  | .mark .openParen =>
    let e ← inner
    expect .closeParen
    return e
  | .ident name => named inner limit name t.loc
  | kind => fail t.loc (.expectedPrimary kind.name)

/-- The operator that comes next. -/
def nextOperator : Parse (Option Operator) := do
  match ← peek with
  | some (.mark m) => return Operator.ofMark? m
  | _ => return none

/-- Rejects operands whose types do not meet. -/
def checkOperands (left right : ExprId) : Parse Unit := do
  let l ← expr left
  let r ← expr right
  if l.type.meets r.type then return ()
  else fail r.loc (.mixedTypes l.shownType r.shownType)

/-- The expression of an operator. It has the type and the location of its left operand. -/
def newBinary (op : Operator) (left right : ExprId) : Parse ExprId := do
  let l ← expr left
  newExpr (.binary op left right) l.type l.loc

/-- The expression that starts with `left` and goes on with operators of the precedence `least` or
a tighter one. An operand is checked against the one on its left before it takes operators of its
own, the tighter ones. It takes all of them in one call: that call ends only in front of an operator
that is not tighter, and there another one would give the operand back as it is. -/
def climb (operand : Parse ExprId) : Nat → ExprId → Nat → Parse ExprId
  | 0, left, _ => return left
  | limit + 1, left, least => do
    match ← nextOperator with
    | none => return left
    | some op =>
      if op.precedence < least then return left
      else
        skip 1
        let right ← operand
        checkOperands left right
        let right ← climb operand limit right (op.precedence + 1)
        let whole ← newBinary op left right
        climb operand limit whole least

/-- An expression. -/
def expression : Nat → Parse ExprId
  | 0 => outOfTokens
  | limit + 1 => do
    let left ← operand (expression limit) limit
    climb (operand (expression limit) limit) limit left 1

end StackLang.Source.Parse
