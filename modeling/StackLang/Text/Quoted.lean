import StackLang.Text.Glyph

/-!
# Quoted text

A quoted text stands between double quotes, a quoted character between single ones. The quote in
use, the backslash and five control characters are written with a backslash; a character without
a glyph of its own is written by its number in hexadecimal.
-/

namespace StackLang.Text.Quoted

/-- One character between the quotes `quote`. -/
def spell (quote c : Char) : List Char :=
  if c = '\x00' then ['\\', '0']
  else if c = '\t' then ['\\', 't']
  else if c = '\r' then ['\\', 'r']
  else if c = '\n' then ['\\', 'n']
  else if c = '\\' || c = quote then ['\\', c]
  else if hasGlyph c then [c]
  else ['\\', 'u', '\x7b'] ++ Nat.toDigits 16 c.toNat ++ ['\x7d']

/-- A text between double quotes. -/
def string (s : String) : String :=
  String.ofList ('"' :: s.toList.flatMap (spell '"') ++ ['"'])

/-- A character between single quotes. -/
def char (c : Char) : String :=
  String.ofList ('\'' :: spell '\'' c ++ ['\''])

end StackLang.Text.Quoted
