import StackLang.Text.Utf8

/-!
# Escapes in literals

Both languages of this library write some bytes of a literal as a backslash and one more
character. `resolve?` reads such a pair; `spell` writes a byte so that it can stand between
quotes. Every spelling of an ASCII byte resolves to that byte.
-/

namespace StackLang.Text.Escape

/-- The byte that a backslash and `c` stand for. -/
def resolve? (c : UInt8) : Option UInt8 :=
  match ofByte c with
  | 'n' => some 0x0A
  | 't' => some 0x09
  | 'v' => some 0x0B
  | 'b' => some 0x08
  | 'r' => some 0x0D
  | 'f' => some 0x0C
  | 'a' => some 0x07
  | '\\' => some 0x5C
  | '?' => some 0x3F
  | '\'' => some 0x27
  | '"' => some 0x22
  | '0' => some 0x00
  | _ => none

/-- The character after the backslash for the bytes that are written with one. -/
def mark? (b : UInt8) : Option Char :=
  if b = 0x0A then some 'n'
  else if b = 0x09 then some 't'
  else if b = 0x0D then some 'r'
  else if b = 0x0B then some 'v'
  else if b = 0x08 then some 'b'
  else if b = 0x0C then some 'f'
  else if b = 0x07 then some 'a'
  else if b = 0x5C then some '\\'
  else if b = 0x27 then some '\''
  else if b = 0x22 then some '"'
  else if b = 0x00 then some '0'
  else none

/-- A byte between quotes: its escape, or the character with its number. -/
def spell (b : UInt8) : List Char :=
  match mark? b with
  | some c => ['\\', c]
  | none => [ofByte b]

/-- The bytes of a literal between quotes. -/
def spellAll (bytes : List UInt8) : String := String.ofList (bytes.flatMap spell)

end StackLang.Text.Escape
