import StackLang.Numeric.Numeral
import StackLang.Text.Blank
import StackLang.Text.Utf8

/-!
# Views of a text

A `View` is a piece of text with the queries and cuts that a scanner needs. Sizes and offsets
count bytes; every cut falls between characters. `split` and `chop` cut at an ASCII delimiter:
joining the pieces of a `split` with the delimiter gives back the text.
-/

namespace StackLang.Text

/-- A piece of text. -/
structure View where
  chars : List Char
deriving DecidableEq, Repr

namespace View

/-- The view of a whole text. -/
def ofString (s : String) : View := ⟨s.toList⟩

/-- The text of a view. -/
def text (v : View) : String := String.ofList v.chars

/-- The bytes of a view. -/
def bytes (v : View) : List UInt8 := Utf8.encode v.chars

/-- The number of bytes. -/
def size (v : View) : Nat := v.bytes.length

/-- Whether the view has no characters. -/
def isEmpty (v : View) : Bool := v.chars.isEmpty

/-- The byte at an offset. -/
def byteAt? (v : View) (i : Nat) : Option UInt8 := v.bytes[i]?

/-- The view without its first character. -/
def chopLeft (v : View) : View := ⟨v.chars.drop 1⟩

/-- The view without the ASCII blanks at its start. -/
def trimLeft (v : View) : View := ⟨v.chars.dropWhile isAsciiBlank⟩

/-- The view without the ASCII blanks at its end. -/
def trimRight (v : View) : View := ⟨(v.chars.reverse.dropWhile isAsciiBlank).reverse⟩

/-- The view without the ASCII blanks at both ends. -/
def trim (v : View) : View := v.trimLeft.trimRight

/-- Whether the first byte is `b`. -/
def startsWithByte (v : View) (b : UInt8) : Bool := v.bytes.head? == some b

/-- Whether the last byte is `b`. -/
def endsWithByte (v : View) (b : UInt8) : Bool := v.bytes.getLast? == some b

/-- Whether the bytes of `w` stand at the start. -/
def startsWith (v w : View) : Bool := w.bytes.isPrefixOf v.bytes

/-- Whether the bytes of `w` stand at the end. -/
def endsWith (v w : View) : Bool := w.bytes.isSuffixOf v.bytes

/-- The offset of the first place in `hay` where `needle` stands. -/
def offsetOf? (needle : List UInt8) : List UInt8 → Option Nat
  | [] => if needle.isEmpty then some 0 else none
  | b :: r => if needle.isPrefixOf (b :: r) then some 0 else (offsetOf? needle r).map (· + 1)

/-- The offset of the first occurrence of `w`. -/
def find? (v w : View) : Option Nat := offsetOf? w.bytes v.bytes

/-- Whether `w` occurs in the view. -/
def contains (v w : View) : Bool := (v.find? w).isSome

/-- The offset of the first byte `b`. -/
def firstOf? (v : View) (b : UInt8) : Option Nat := v.bytes.findIdx? (· == b)

/-- The offset of the last byte `b`. -/
def lastOf? (v : View) (b : UInt8) : Option Nat :=
  (v.bytes.reverse.findIdx? (· == b)).map fun i => v.bytes.length - 1 - i

/-- What stands before and after the first `c`. -/
def cut? (c : Char) : List Char → Option (List Char × List Char)
  | [] => none
  | d :: r => if d = c then some ([], r) else (cut? c r).map fun p => (d :: p.1, p.2)

/-- At most `max` pieces between the delimiters `c`, the last one keeping the remainder. -/
def split (c : Char) : Nat → View → List View
  | 0, _ => []
  | 1, v => [v]
  | max + 2, v =>
    match cut? c v.chars with
    | some (before, after) => ⟨before⟩ :: split c (max + 1) ⟨after⟩
    | none => [v]

/-- Everything after the first `c`; nothing if there is none. -/
def chop (c : Char) (v : View) : View :=
  match cut? c v.chars with
  | some (_, after) => ⟨after⟩
  | none => ⟨[]⟩

/-- The value of the decimal digits at the start, stopping at the greatest integer. -/
def toInt (v : View) : Nat := Numeric.Numeral.saturating 10 v.chars

end View

end StackLang.Text
