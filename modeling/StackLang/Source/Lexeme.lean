import StackLang.Numeric.Numeral
import StackLang.Source.Diagnostic
import StackLang.Text.Escape
import StackLang.Text.Rows

/-!
# Lexemes

A source text is a row of lexemes: blanks, comments, zero bytes, directives and the spellings of
tokens. `scan` finds the lexeme that starts with a byte and says how many of the following bytes
belong to it, so that the bytes of the lexemes of a sound text, in order, are the text.

Blanks are lexemes of one byte each. A word or a number takes all the bytes that can continue it,
a comment goes up to the end of its row, and a directive takes the line feed of its row with it.
-/

namespace StackLang.Source

open Numeric Text

/-- What a lexeme means. -/
inductive Content where
  | blank
  | comment
  /-- A zero byte, which is skipped with a warning. -/
  | zero
  /-- The row after this one counts as the row `row` of the file `file`. -/
  | directive (file : String) (row : Nat)
  | token (kind : TokenKind)
deriving DecidableEq, Repr

/-- A run of bytes of a source text and its meaning. -/
structure Lexeme where
  content : Content
  bytes : List UInt8
deriving DecidableEq, Repr

namespace Lexeme

/-- Space, tab, line feed, vertical tab, form feed and carriage return. -/
def isBlank (b : UInt8) : Bool := b = 0x20 || (0x09 ≤ b && b ≤ 0x0D)

/-- Whether a byte is a decimal digit. -/
def isDigit (b : UInt8) : Bool := (ofByte b).isDigit

/-- Whether a byte may stand in a decimal number after its first digit. -/
def isNumber (b : UInt8) : Bool := isDigit b || ofByte b = '.'

/-- A literal behind its opening delimiter: the bytes it denotes, the number of bytes it is
written with, and whether its closing delimiter, which counts among them, was found. -/
structure Literal where
  value : List UInt8
  length : Nat
  closed : Bool
deriving DecidableEq, Repr

/-- The literal with one more byte in front, written with `n` bytes. -/
def Literal.push (l : Literal) (b : UInt8) (n : Nat) : Literal :=
  ⟨b :: l.value, l.length + n, l.closed⟩

/-- The literal up to the first `delimiter` that is not escaped. A backslash at the end of the text
escapes nothing and stands for itself. -/
def literal (delimiter : UInt8) : List UInt8 → Except Cause Literal
  | [] => .ok ⟨[], 0, false⟩
  | [b] => .ok (if b = delimiter then ⟨[], 1, true⟩ else ⟨[b], 1, false⟩)
  | b :: c :: rest =>
    if b = delimiter then .ok ⟨[], 1, true⟩
    else if ofByte b = '\\' then
      match Escape.resolve? c with
      | some e => (literal delimiter rest).map fun l => l.push e 2
      | none => .error (.invalidEscape (ofByte c))
    else (literal delimiter (c :: rest)).map fun l => l.push b 1

/-- The token of a literal between double quotes. -/
def stringToken (l : Literal) : Except Cause TokenKind :=
  if l.closed then .ok (.string (String.ofList (Utf8.decodeLossy l.value)))
  else .error .unterminatedString

/-- The token of a literal between single quotes. It holds one byte at most, and zero if it is
empty. -/
def charToken (l : Literal) : Except Cause TokenKind :=
  if 1 < l.value.length then .error .multipleCharacters
  else if l.closed then .ok (.char (l.value.headD 0))
  else .error .unterminatedChar

/-- The part of a text in front of its second point. -/
def beforeSecondPoint (text : List Char) : List Char :=
  let whole := text.takeWhile (· != '.')
  match text.dropWhile (· != '.') with
  | point :: rest => whole ++ point :: rest.takeWhile (· != '.')
  | [] => whole

/-- The token of a decimal number: a float if there is a point in it, else an integer that stops at
the greatest one. -/
def decimalToken (text : List Char) : TokenKind :=
  if text.contains '.' then
    match Decimal.read? (beforeSecondPoint text) with
    | some d => .float (d.toBinary .double)
    | none => .float 0
  else .integer (Numeral.saturating 10 text)

/-- The token of the digits behind a radix mark, underscores left out. -/
def radixToken (radix : Nat) (text : List Char) : TokenKind :=
  .integer (Numeral.saturating radix (text.filter (· != '_')))

/-- The radix that a zero and `b` mark. -/
def radix? (b : UInt8) : Option Nat :=
  if ofByte b = 'x' then some 16 else if ofByte b = 'b' then some 2 else none

/-- The number that starts with the digit `b`, and how many of the next bytes belong to it. -/
def number (b : UInt8) (rest : List UInt8) : TokenKind × Nat :=
  let mark := if ofByte b = '0' then rest.head?.bind radix? else none
  match mark with
  | some radix =>
    let digits := (rest.drop 1).takeWhile isWord
    (radixToken radix (asciiText digits), digits.length + 1)
  | none =>
    let more := rest.takeWhile isNumber
    (decimalToken (asciiText (b :: more)), more.length)

/-- The name and the digits of a directive, and how many of the bytes behind its first belong to it:
a name between double quotes, a space and digits up to the end of the row. -/
def directiveParts? : List UInt8 → Option (List UInt8 × List UInt8 × Nat)
  | [] => none
  | quote :: rest =>
    let name := rest.takeWhile (ofByte · != '"')
    match rest.drop name.length with
    | _ :: space :: rest =>
      let digits := rest.takeWhile (· != lineFeed)
      let lineEnd := if digits.length < rest.length then 1 else 0
      if ofByte quote = '"' && ofByte space = ' ' && !digits.isEmpty && digits.all isDigit then
        some (name, digits, name.length + digits.length + 3 + lineEnd)
      else none
    | _ => none

/-- A directive, and how many of the bytes behind its first belong to it. -/
def directive (rest : List UInt8) : Except Cause (Content × Nat) :=
  match directiveParts? rest with
  | none => .error .invalidDirective
  | some (name, digits, length) =>
    match Utf8.decode? name with
    | none => .error .brokenCharacter
    | some file =>
      let row := Numeral.saturating 10 (asciiText digits)
      .ok (.directive (String.ofList file) row, length)

/-- The mark that a text starts with, the longer one if there are two, and how many of the bytes
behind its first belong to it. -/
def mark? (b : UInt8) (rest : List UInt8) : Option (Mark × Nat) :=
  let pair? := rest.head?.bind fun c => Mark.ofName? [ofByte b, ofByte c]
  match pair? with
  | some m => some (m, 1)
  | none => (Mark.ofName? [ofByte b]).map fun m => (m, 0)

/-- What the lexeme that starts with `b` means, and how many of the bytes behind `b` belong to
it. -/
def scan (b : UInt8) (rest : List UInt8) : Except Cause (Content × Nat) :=
  if isBlank b then .ok (.blank, 0)
  else if b = 0 then .ok (.zero, 0)
  else if ofByte b = '@' then directive rest
  else if ofByte b = '/' && rest.head?.map ofByte = some '/' then
    .ok (.comment, (rest.takeWhile (· != lineFeed)).length)
  else if ofByte b = '"' then do
    let l ← literal b rest
    return (.token (← stringToken l), l.length)
  else if ofByte b = '\'' then do
    let l ← literal b rest
    return (.token (← charToken l), l.length)
  else if (ofByte b).isAlpha then
    let more := rest.takeWhile isWord
    .ok (.token (.ofWord (String.ofList (asciiText (b :: more)))), more.length)
  else if isDigit b then
    let (kind, length) := number b rest
    .ok (.token kind, length)
  else
    match mark? b rest with
    | some (m, length) => .ok (.token (.mark m), length)
    | none =>
      match (Utf8.scan b rest).1 with
      | some c => .error (.unexpectedCharacter c)
      | none => .error .brokenCharacter

end Lexeme

/-- The lexemes of a text up to its end or to the first fault. -/
def lexemes (source : List UInt8) : List Lexeme × Option Cause :=
  match source with
  | [] => ([], none)
  | b :: rest =>
    match Lexeme.scan b rest with
    | .error cause => ([], some cause)
    | .ok (content, length) =>
      let (more, fault) := lexemes (rest.drop length)
      (⟨content, b :: rest.take length⟩ :: more, fault)
termination_by source.length
decreasing_by
  simp only [List.length_drop, List.length_cons]
  omega

/-- The lexemes of a text without fault are the whole text. -/
theorem flatMap_bytes_lexemes {source : List UInt8} (h : (lexemes source).2 = none) :
    (lexemes source).1.flatMap Lexeme.bytes = source := by
  fun_induction lexemes source with
  | case1 => rfl
  | case2 => cases h
  | case3 b rest content length _ more fault hm ih =>
    simp only [List.flatMap_cons]
    rw [hm] at ih
    rw [ih h]
    simp

end StackLang.Source
