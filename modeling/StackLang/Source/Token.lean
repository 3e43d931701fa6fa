import StackLang.Numeric.Decimal
import StackLang.Source.DataType
import StackLang.Text.Quoted
import StackLang.Text.Utf8

/-!
# Tokens of the source language

A token is a kind with a location. Words are classified in a fixed order: keyword, type name,
builtin, identifier. `TokenKind.name` is the short name that diagnostics use.
-/

namespace StackLang.Source

/-- A place in a source text: rows count from one, columns are bytes from zero. -/
structure Location where
  file : String
  row : Nat
  column : Nat
deriving DecidableEq, Repr, Inhabited

/-- A location as diagnostics show it. -/
def Location.render (l : Location) : String := s!"{l.file}:{l.row}:{l.column}"

/-- The functions that are part of the language. -/
inductive Builtin where
  | alloc | dealloc | store | tovp | get | dll | call
deriving DecidableEq, Repr

namespace Builtin

/-- Every builtin. -/
def all : List Builtin := [.alloc, .dealloc, .store, .tovp, .get, .dll, .call]

/-- The word that names the builtin. -/
def name : Builtin → String
  | .alloc => "alloc"
  | .dealloc => "dealloc"
  | .store => "store"
  | .tovp => "tovp"
  | .get => "get"
  | .dll => "dll"
  | .call => "call"

/-- The builtin that a word names. -/
def ofName? (word : String) : Option Builtin := all.find? fun b => b.name == word

theorem ofName?_name (b : Builtin) : ofName? b.name = some b := by
  cases b <;> decide

/-- The type of what the builtin gives back. -/
def returnType : Builtin → DataType
  | .alloc | .tovp | .get => .ptr
  | .store | .dealloc | .dll => .void
  | .call => .int

end Builtin

/-- The reserved words. -/
inductive Keyword where
  | writeWord | exitWord | ifWord | elseWord | whileWord | thenWord | returnWord | endWord
  | constWord | structWord
deriving DecidableEq, Repr

namespace Keyword

/-- Every reserved word. -/
def all : List Keyword :=
  [.writeWord, .exitWord, .ifWord, .elseWord, .whileWord, .thenWord, .returnWord, .endWord,
    .constWord, .structWord]

/-- The word itself. -/
def name : Keyword → String
  | .writeWord => "write"
  | .exitWord => "exit"
  | .ifWord => "if"
  | .elseWord => "else"
  | .whileWord => "while"
  | .thenWord => "then"
  | .returnWord => "return"
  | .endWord => "end"
  | .constWord => "const"
  | .structWord => "struct"

/-- The keyword that a word is. -/
def ofName? (word : String) : Option Keyword := all.find? fun k => k.name == word

theorem ofName?_name (k : Keyword) : ofName? k.name = some k := by
  cases k <;> decide

end Keyword

/-- The punctuation marks and operators. -/
inductive Mark where
  | colon | openParen | closeParen | openBracket | closeBracket | openCurly | closeCurly
  | comma | dot | assign | equal | notEqual | greaterEqual | lessEqual | greater | less
  | plus | minus | times | divide | modulo | both | either | ampersand
deriving DecidableEq, Repr

namespace Mark

/-- Every mark. -/
def all : List Mark :=
  [.colon, .openParen, .closeParen, .openBracket, .closeBracket, .openCurly, .closeCurly,
    .comma, .dot, .assign, .equal, .notEqual, .greaterEqual, .lessEqual, .greater, .less,
    .plus, .minus, .times, .divide, .modulo, .both, .either, .ampersand]

/-- The mark as it is written. -/
def name : Mark → String
  | .colon => ":"
  | .openParen => "("
  | .closeParen => ")"
  | .openBracket => "["
  | .closeBracket => "]"
  | .openCurly => "\x7b"
  | .closeCurly => "\x7d"
  | .comma => ","
  | .dot => "."
  | .assign => "="
  | .equal => "=="
  | .notEqual => "!="
  | .greaterEqual => ">="
  | .lessEqual => "<="
  | .greater => ">"
  | .less => "<"
  | .plus => "+"
  | .minus => "-"
  | .times => "*"
  | .divide => "/"
  | .modulo => "%"
  | .both => "&&"
  | .either => "||"
  | .ampersand => "&"

/-- The mark that is written with the given characters. -/
def ofName? (text : List Char) : Option Mark := all.find? fun m => m.name.toList == text

theorem ofName?_name (m : Mark) : ofName? m.name.toList = some m := by
  cases m <;> decide +kernel

end Mark

/-- What a token is. -/
inductive TokenKind where
  | keyword (k : Keyword)
  | mark (m : Mark)
  | type (t : DataType)
  | builtin (b : Builtin)
  | ident (name : String)
  | string (text : String)
  | char (b : UInt8)
  | integer (n : Nat)
  /-- A number of the double format, given by its pattern. -/
  | float (pattern : Nat)
deriving DecidableEq, Repr

namespace TokenKind

/-- The kind of a word. -/
def ofWord (word : String) : TokenKind :=
  match Keyword.ofName? word with
  | some k => .keyword k
  | none =>
    match DataType.ofName? word with
    | some t => .type t
    | none =>
      match Builtin.ofName? word with
      | some b => .builtin b
      | none => .ident word

/-- The short name of a kind. -/
def name : TokenKind → String
  | .keyword k => k.name
  | .mark m => m.name
  | .type _ => "type"
  | .builtin _ => "builtin"
  | .ident _ => "ident"
  | .string _ => "string"
  | .char _ => "char"
  | .integer _ => "integer"
  | .float _ => "float"

/-- The value that a token carries, as a listing of tokens shows it. -/
def valueText? : TokenKind → Option String
  | .ident name => some name
  | .string text => some (Text.Quoted.string text)
  | .char b => some (Text.Quoted.char (Text.ofByte b))
  | .integer n => some (toString n)
  | .float pattern => some (Numeric.DecimalStyle.plain.render .double pattern)
  | .type t => some t.name
  | .builtin b => some b.name
  | .keyword _ | .mark _ => none

end TokenKind

/-- A kind at a location. -/
structure Token where
  kind : TokenKind
  loc : Location
deriving DecidableEq, Repr

/-- A line of a listing of tokens. -/
def Token.listLine (t : Token) : String :=
  let value := match t.kind.valueText? with
    | some v => ", " ++ v
    | none => ""
  s!"{t.loc.row}:{t.loc.column}: " ++ t.kind.name ++ value ++ "\n"

/-- The listing of a row of tokens, a line for each. -/
def listTokens (tokens : List Token) : String := String.join (tokens.map Token.listLine)

end StackLang.Source
