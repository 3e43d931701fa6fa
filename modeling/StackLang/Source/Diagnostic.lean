import StackLang.Source.Token

/-!
# Diagnostics

A source text is rejected at a location for a cause. `Cause.message` holds every wording; the
location stands in front.
-/

namespace StackLang.Source

/-- Why a source text is rejected. Kinds of tokens go by their short names. -/
inductive Cause where
  | invalidDirective
  | invalidEscape (c : Char)
  | unterminatedString
  | unterminatedChar
  | multipleCharacters
  | unexpectedCharacter (c : Char)
  /-- Bytes that must form whole characters do not. No text that is UTF-8 has this fault. -/
  | brokenCharacter
  | outOfTokens
  | expectedToken (expected found : String)
  | expectedPrimary (found : String)
  | expectedType (found : String)
  | unexpectedToken (found : String)
  | unknownVariable (name : String)
  | unknownFunction (name : String)
  | unknownStruct (name : String)
  | unknownType (name : String)
  | unknownField (struct field : String)
  | mixedTypes (left right : DataType)
  | typeMismatch (expected found : DataType)
  | argumentType (name : String) (expected found : DataType)
  | argumentCount (name : String) (expected found : Nat)
  | variableType (name : String) (expected found : DataType)
  | fieldType (name : String)
  | fieldCount (name : String) (expected found : Nat)
  | expectedStruct (found : DataType)
  | constVariable (name : String)
  | constField (name : String)
  | elseWithoutIf
  | endWithoutBlock
  | elementFieldAssign
deriving DecidableEq, Repr

/-- The text of a cause. -/
def Cause.message : Cause → String
  | .invalidDirective => "invalid preprocessor directive"
  | .invalidEscape c => s!"unexpected escape character: `{c}`"
  | .unterminatedString => "expected closing `\"`"
  | .unterminatedChar => "expected closing `'` quote"
  | .multipleCharacters => "character cannot be made up of multiple characters"
  | .unexpectedCharacter c => s!"unexpected token `{c}`"
  | .brokenCharacter => "invalid character"
  | .outOfTokens => "out of tokens"
  | .expectedToken expected found =>
    s!"expected type: `{expected}`, but found type `{found}`"
  | .expectedPrimary found => s!"expected int, string, char, or ident but found {found}"
  | .expectedType found => s!"expected `type` but found `{found}`"
  | .unexpectedToken found => s!"unexpected token: {found}"
  | .unknownVariable name => s!"Unknown variable: {name}"
  | .unknownFunction name => s!"Unknown function: {name}"
  | .unknownStruct name => s!"very unknown struct {name}"
  | .unknownType name => s!"Unknown type name `{name}`"
  | .unknownField struct field => s!"struct `{struct}` has no field `{field}`"
  | .mixedTypes left right =>
    s!"expression with types of both {left.name} and {right.name}"
  | .typeMismatch expected found =>
    s!"expected type `{expected.name}` but found type `{found.name}`"
  | .argumentType name expected found =>
    s!"argument {name} expected data type {expected.name} but found {found.name}"
  | .argumentCount name expected found =>
    s!"function `{name}` expects {expected} arguments but found {found}"
  | .variableType name expected found =>
    s!"expression does not match the type of the var {name} types {expected.name} and {found.name}"
  | .fieldType name => s!"expression does not match the type of field `{name}`"
  | .fieldCount name expected found =>
    s!"struct `{name}` has {expected} fields but found {found}"
  | .expectedStruct found => s!"expected struct definition but found `{found.name}`"
  | .constVariable name => s!"Variable `{name}` is constant"
  | .constField name => s!"field `{name}` is const, cannot reassign"
  | .elseWithoutIf => "`else` statement without prior `if`"
  | .endWithoutBlock => "`end` without an opening block"
  | .elementFieldAssign => "assigning to a field of an array element is not supported"

/-- A cause at a location. -/
structure Diagnostic where
  loc : Location
  cause : Cause
deriving DecidableEq, Repr

/-- The text of a diagnostic. -/
def Diagnostic.message (d : Diagnostic) : String := d.loc.render ++ ": " ++ d.cause.message

end StackLang.Source
