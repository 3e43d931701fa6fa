import StackLang.Assembly.Token

/-!
# Assembly errors

An error is a line and a cause. `Cause.message` holds every wording; the line stands in front.
-/

namespace StackLang.Assembly

/-- How many registers the machine has. -/
def registerCount : Nat := 16

/-- Why a line is rejected. -/
inductive Cause where
  | invalidNumber (text : String)
  | unexpectedCharacter (c : Char)
  | unexpectedEscape (c : Char)
  | unfinishedLiteral
  | multipleCharacters
  | expectedEntryLabel (found : Option Token)
  | expectedColon
  | labelDefined (name : String)
  | expectedStatement (found : Token)
  | expectedNewline (found : Token)
  | unknownLabel (name : String)
  | noSuchRegister (index : Nat)
  | expectedTyped (tag : Tag) (found : Option Token)
  | expectedLiteral (found : Option Token)
  | expectedString (found : Option Token)
  | expectedRegister (found : Option Token)
  | expectedTarget (found : Option Token)
  | expectedNative (found : Option Token)
deriving DecidableEq, Repr

/-- The text of a cause. -/
def Cause.message : Cause → String
  | .invalidNumber text => s!"invalid number `{text}`"
  | .unexpectedCharacter c => s!"unexpected character `{c}`"
  | .unexpectedEscape c => s!"unexpected escape character `{c}`"
  | .unfinishedLiteral => "literal is not finished properly"
  | .multipleCharacters => "character cannot be made up of multiple characters"
  | .expectedEntryLabel t =>
    "expected a label after `entrypoint`, got " ++ Token.describe? t
  | .expectedColon => "':' should come after a label"
  | .labelDefined name => s!"label {name} is already defined"
  | .expectedStatement t => "expected instruction or label, got " ++ t.describe
  | .expectedNewline t => "expected '\\n', got " ++ t.describe
  | .unknownLabel name => s!"unknown label {name}"
  | .noSuchRegister index =>
    s!"there are only {registerCount} registers, r{index} does not exist"
  | .expectedTyped tag t => s!"expected a {tag.name} literal, got " ++ Token.describe? t
  | .expectedLiteral t => "expected a literal, got " ++ Token.describe? t
  | .expectedString t => "expected a string, got " ++ Token.describe? t
  | .expectedRegister t => "expected a register, got " ++ Token.describe? t
  | .expectedTarget t => "expected a label or an index, got " ++ Token.describe? t
  | .expectedNative t => "expected a native function index, got " ++ Token.describe? t

/-- A rejected line. -/
structure Error where
  line : Nat
  cause : Cause
deriving DecidableEq, Repr

/-- The text of an error. -/
def Error.message (e : Error) : String := s!"line {e.line}: " ++ e.cause.message

end StackLang.Assembly
