import StackLang.Source.Parse.State

/-!
# Declarations of foreign libraries

`dll "file", name(type, Struct&, ...): type, ..., end` declares functions of a library. A comma
stands behind each of them, and each is known from there on.
-/

namespace StackLang.Source.Parse

/-- A parameter: a type, or a structure with `&` behind it if it goes by reference. -/
def foreignParam : Parse ForeignParam := do
  let t ← next
  match t.kind with
  | .type type => return { type }
  | .ident name =>
    if ((← program).struct? name).isSome then
      let isReference ← nextIs (.mark .ampersand)
      if isReference then skip 1
      return { type := .ptr, struct := some name, isReference }
    else fail t.loc (.expectedType t.kind.name)
  | kind => fail t.loc (.expectedType kind.name)

/-- A function with its parameters and its type. -/
def foreignFunction (limit : Nat) : Parse ForeignFunction := do
  let (name, _) ← ident
  let params ← parenthesized .comma foreignParam limit
  expect .colon
  let t ← next
  match t.kind with
  | .type returnType => return { name, params, returnType }
  | kind => fail t.loc (.expectedType kind.name)

/-- Functions up to `end`, one at least. -/
def foreignFunctions : Nat → Parse (List ForeignFunction)
  | 0 => outOfTokens
  | limit + 1 => do
    let f ← foreignFunction limit
    expect .comma
    declare (.foreign f)
    if ← nextIs (.keyword .endWord) then
      skip 1
      return [f]
    else return f :: (← foreignFunctions limit)

/-- What follows the word `dll`. -/
def library (limit : Nat) : Parse Library := do
  let file ← string
  expect .comma
  return { file, functions := ← foreignFunctions limit }

end StackLang.Source.Parse
