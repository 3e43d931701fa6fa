import StackLang.Assembly.Error
import StackLang.Text.Escape
import StackLang.Text.Rows

/-!
# Lines of assembly text

A text is cut at its line feeds and each row is read into tokens on its own: blanks separate
tokens, a semicolon starts a comment, and no literal goes on to the next row. A `Line` holds the
tokens of a row up to the first fault, its number counted from one, and what comes after the last
token.
-/

namespace StackLang.Assembly

open Numeric Text

/-- What follows the last token of a line. -/
inductive Ending where
  | newline
  | endOfText
  | fault (cause : Cause)
deriving DecidableEq, Repr

/-- A row of the text as tokens. -/
structure Line where
  number : Nat
  tokens : List Token
  ending : Ending
deriving DecidableEq, Repr

namespace Row

/-- Whether a byte separates tokens and means nothing else. -/
def isBlank (b : UInt8) : Bool := b = 0x09 || b = 0x0D || b = 0x0C || b = 0x20

/-- Whether a byte may stand in a number after its first digit. -/
def isNumber (b : UInt8) : Bool := isWord b || ofByte b = '.'

/-- The natural that unsigned digits without underscores spell, in the radix of their mark. -/
def natural? : List Char → Option Nat
  | '0' :: 'x' :: digits => Numeral.word? 16 digits
  | '0' :: 'b' :: digits => Numeral.word? 2 digits
  | digits => Numeral.word? 10 digits

/-- The number that a text spells. Underscores are ignored and a point makes it a float. -/
def number? (text : List Char) : Option Token :=
  let (negative, unsigned) := match text with
    | '-' :: r => (true, r)
    | r => (false, r)
  let digits := unsigned.filter (· != '_')
  if digits.contains '.' then
    (Decimal.read? digits).map fun d =>
      let pattern := d.toBinary .double
      .float (if negative then Binary.double.neg pattern else pattern)
  else
    (natural? digits).map fun (n : Nat) =>
      .number (if negative then .ofInt (-(n : Int)) else .ofNat n)

/-- The bytes of a literal up to its closing delimiter, with escapes resolved, and the bytes after
the delimiter. `after` is the character that follows the row. -/
def quoted (after : Char) (delimiter : UInt8) :
    List UInt8 → Except Cause (List UInt8 × List UInt8)
  | [] => .error .unfinishedLiteral
  | b :: rest =>
    if b = 0x5C then
      match rest with
      | [] => .error (.unexpectedEscape after)
      | c :: rest =>
        match Escape.resolve? c with
        | none => .error (.unexpectedEscape (ofByte c))
        | some e => (quoted after delimiter rest).map fun (bytes, r) => (e :: bytes, r)
    else if b = delimiter then .ok ([], rest)
    else (quoted after delimiter rest).map fun (bytes, r) => (b :: bytes, r)

/-- The byte of a character literal; an empty one holds zero. -/
def charToken : List UInt8 → Except Cause Token
  | [] => .ok (.char 0)
  | [b] => .ok (.char b)
  | _ => .error .multipleCharacters

/-- The number token of a text. -/
def numberToken (text : List Char) : Except Cause Token :=
  match number? text with
  | some t => .ok t
  | none => .error (.invalidNumber (String.ofList text))

/-- The token that starts with the byte `b`, and the bytes after it. -/
def scan (after : Char) (b : UInt8) (rest : List UInt8) : Except Cause (Token × List UInt8) :=
  if ofByte b = '"' then do
    let (bytes, r) ← quoted after b rest
    return (.text bytes, r)
  else if ofByte b = '\'' then do
    let (bytes, r) ← quoted after b rest
    return (← charToken bytes, r)
  else if ofByte b = ':' then .ok (.colon, rest)
  else if (ofByte b).isDigit || ofByte b = '-' then do
    return (← numberToken (asciiText (b :: rest.takeWhile isNumber)), rest.dropWhile isNumber)
  else if (ofByte b).isAlpha || ofByte b = '_' then
    .ok (.ofWord (String.ofList (asciiText (b :: rest.takeWhile isWord))), rest.dropWhile isWord)
  else .error (.unexpectedCharacter (ofByte b))

theorem quoted_length_lt {after : Char} {delimiter : UInt8} {bytes s r : List UInt8}
    (h : quoted after delimiter bytes = .ok (s, r)) : r.length < bytes.length := by
  fun_induction quoted after delimiter bytes generalizing s r with
  | case1 => cases h
  | case2 => cases h
  | case3 => cases h
  | case4 c rest e _ ih =>
    cases hq : quoted after delimiter rest with
    | error _ => rw [hq] at h; cases h
    | ok p =>
      rw [hq] at h
      cases h
      have := ih hq
      simp only [List.length_cons]
      omega
  | case5 =>
    cases h
    simp
  | case6 b rest _ _ ih =>
    cases hq : quoted after delimiter rest with
    | error _ => rw [hq] at h; cases h
    | ok p =>
      rw [hq] at h
      cases h
      have := ih hq
      simp only [List.length_cons]
      omega

theorem scan_length_le {after : Char} {b : UInt8} {rest r : List UInt8} {t : Token}
    (h : scan after b rest = .ok (t, r)) : r.length ≤ rest.length := by
  unfold scan at h
  split at h
  · cases hq : quoted after b rest with
    | error _ => rw [hq] at h; cases h
    | ok p =>
      rw [hq] at h
      cases h
      exact Nat.le_of_lt (quoted_length_lt hq)
  split at h
  · cases hq : quoted after b rest with
    | error _ => rw [hq] at h; cases h
    | ok p =>
      rw [hq] at h
      cases hc : charToken p.1 with
      | error _ => simp [bind, Except.bind, hc] at h
      | ok _ =>
        simp only [bind, Except.bind, hc] at h
        cases h
        exact Nat.le_of_lt (quoted_length_lt hq)
  split at h
  · cases h
    exact Nat.le_refl _
  split at h
  · cases hn : numberToken (asciiText (b :: rest.takeWhile isNumber)) with
    | error _ => rw [hn] at h; cases h
    | ok _ =>
      rw [hn] at h
      cases h
      exact (List.dropWhile_sublist _).length_le
  split at h
  · cases h
    exact (List.dropWhile_sublist _).length_le
  · cases h

/-- The tokens of a row up to its end or to its first fault. -/
def tokens (after : Char) (bytes : List UInt8) : List Token × Option Cause :=
  match bytes with
  | [] => ([], none)
  | b :: rest =>
    if isBlank b then tokens after rest
    else if ofByte b = ';' then ([], none)
    else
      match h : scan after b rest with
      | .error cause => ([], some cause)
      | .ok (t, r) =>
        have := scan_length_le h
        let (ts, fault) := tokens after r
        (t :: ts, fault)
termination_by bytes.length

/-- The line of a row that a line feed ends, or that the text ends with. -/
def toLine (number : Nat) (last : Bool) (bytes : List UInt8) : Line :=
  let (ts, fault) := tokens (if last then '\x00' else '\n') bytes
  let ending := match fault with
    | some cause => .fault cause
    | none => if last then .endOfText else .newline
  ⟨number, ts, ending⟩

end Row

/-- Lines for the rows from row `number` on; the last row ends the text. -/
def linesFrom (number : Nat) : List (List UInt8) → List Line
  | [] => []
  | [row] => [Row.toLine number true row]
  | row :: rows => Row.toLine number false row :: linesFrom (number + 1) rows

/-- The lines of a text. -/
def lines (bytes : List UInt8) : List Line := linesFrom 1 (Text.rows bytes)

end StackLang.Assembly
