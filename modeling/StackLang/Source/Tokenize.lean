import StackLang.Source.Lexeme

/-!
# Tokens of a source text

Each lexeme starts where the one before it ends: a line feed starts a row, every other byte is one
column, and a directive says which row of which file comes next. The location of a token is where
its lexeme starts.
-/

namespace StackLang.Source

/-- The location behind a byte. -/
def Location.step (l : Location) (b : UInt8) : Location :=
  if b = Text.lineFeed then ⟨l.file, l.row + 1, 0⟩ else { l with column := l.column + 1 }

/-- The location behind a row of bytes. -/
def Location.after (l : Location) (bytes : List UInt8) : Location := bytes.foldl Location.step l

@[simp] theorem Location.after_nil (l : Location) : l.after [] = l := rfl

@[simp] theorem Location.after_cons (l : Location) (b : UInt8) (bytes : List UInt8) :
    l.after (b :: bytes) = (l.step b).after bytes := rfl

theorem Location.after_append (l : Location) (a b : List UInt8) :
    l.after (a ++ b) = (l.after a).after b := List.foldl_append

/-- The start of a file. -/
def Location.start (file : String) : Location := ⟨file, 1, 0⟩

/-- The location behind a lexeme that starts at `l`. -/
def Lexeme.place (x : Lexeme) (l : Location) : Location :=
  match x.content with
  | .directive file row => ⟨file, row, 0⟩
  | _ => l.after x.bytes

/-- What reading a text gives: the locations of the zero bytes that were skipped, and the tokens or
the first fault. -/
structure Scan where
  zeros : List Location
  tokens : Except Diagnostic (List Token)

namespace Scan

/-- What a lexeme at a location adds to the scan of what comes after it. -/
def addLexeme (s : Scan) (l : Location) (content : Content) : Scan :=
  match content with
  | .blank | .comment | .directive .. => s
  | .zero => { s with zeros := l :: s.zeros }
  | .token kind => { s with tokens := s.tokens.map fun ts => ⟨kind, l⟩ :: ts }

/-- The scan of lexemes from a location on, with the fault that ends them if there is one. -/
def ofLexemes (l : Location) (fault : Option Cause) : List Lexeme → Scan
  | [] =>
    match fault with
    | none => ⟨[], .ok []⟩
    | some cause => ⟨[], .error ⟨l, cause⟩⟩
  | x :: more => (ofLexemes (x.place l) fault more).addLexeme l x.content

/-- The warning about a zero byte. -/
def zeroWarning (l : Location) : String := l.render ++ " NOTE: Ignoring null-byte"

/-- The warnings of a scan in order. -/
def warnings (s : Scan) : List String := s.zeros.map zeroWarning

end Scan

/-- Reads the bytes of the file `file`. -/
def scanBytes (file : String) (source : List UInt8) : Scan :=
  let (xs, fault) := lexemes source
  .ofLexemes (.start file) fault xs

/-- Reads the text of the file `file`. -/
def scanText (file source : String) : Scan := scanBytes file (Text.Utf8.encode source.toList)

end StackLang.Source
