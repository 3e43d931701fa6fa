import StackLang.Assembly.Assemble
import StackLang.Bytecode.File
import StackLang.Bytecode.Listing
import StackLang.Machine.Debugger
import StackLang.Source.Parse.Statement
import StackLang.Source.Tokenize

/-!
# Commands

The command line has six commands, each on one file: two look at a source text, one makes a
bytecode file of an assembly text, and three load a bytecode file. `Command.report` is what a
command does, given the bytes of the file and of the standard input: what it writes, and its exit
status. A failure is one line on the second stream and the status one.
-/

namespace StackLang

/-- The commands. -/
inductive Command where
  | lex | parse | asm | run | disasm | debug
deriving DecidableEq, Repr

/-- The words that name commands. -/
def Command.ofName? : String → Option Command
  | "lex" => some .lex
  | "parse" => some .parse
  | "asm" => some .asm
  | "run" => some .run
  | "disasm" => some .disasm
  | "debug" => some .debug
  | _ => none

/-- A command with the file it is for. -/
structure Invocation where
  command : Command
  path : String
  /-- The file that `asm` writes. -/
  output : String := "out.tim"

/-- The invocation that the words of a command line spell. -/
def Invocation.ofArgs? : List String → Option Invocation
  | [name, path] => (Command.ofName? name).map fun command => { command, path }
  | ["asm", path, option, output] =>
    if option == "-o" || option == "--output" then some { command := .asm, path, output }
    else none
  | _ => none

/-- Why a command fails. -/
inductive Failure where
  | cannotOpen (path reason : String)
  | cannotRead (path reason : String)
  | source (d : Source.Diagnostic)
  | assembly (path : String) (e : Assembly.Error)
  | bytecode (path : String) (e : Bytecode.FileError)
  | fault (e : Fault)
  /-- The bound on the number of steps was reached. -/
  | unfinished
deriving DecidableEq, Repr

/-- The text of a failure. -/
def Failure.message : Failure → String
  | .cannotOpen path reason => s!"could not open {path}: {reason}"
  | .cannotRead path reason => s!"could not read {path}: {reason}"
  | .source d => d.message
  | .assembly path e => s!"could not assemble {path}: {e.message}"
  | .bytecode path e => s!"could not read {path}: {e.message}"
  | .fault e => e.message
  | .unfinished => "step limit reached"

/-- What a command has to do with the world. -/
structure Report where
  /-- The exit status. -/
  status : Nat := 0
  out : List UInt8 := []
  err : List UInt8 := []
  /-- The file that is written. -/
  file : Option (List UInt8) := none
deriving DecidableEq, Repr

namespace Report

/-- The bytes of a text. -/
def textBytes (s : String) : List UInt8 := Text.Utf8.encode s.toList

/-- The report of a text that is shown. -/
def ofText (s : String) : Report := { out := textBytes s }

/-- The report with a failure at its end. -/
def failed (r : Report) (f : Failure) : Report :=
  { r with status := 1, err := r.err ++ textBytes (f.message ++ "\n") }

/-- The report of a command that fails at once. -/
def ofFailure (f : Failure) : Report := failed {} f

end Report

/-- What a command is given: the bytes of its file, or the reason why there are none, and the
standard input. -/
structure Surroundings where
  path : String
  content : Except String (List UInt8)
  stdin : List UInt8 := []
  loader : Loader := .none

namespace Surroundings

/-- The text of the file. -/
def text (w : Surroundings) : Except Failure String :=
  match w.content with
  | .error reason => .error (.cannotRead w.path reason)
  | .ok bytes =>
    match Text.Utf8.decode? bytes with
    | some chars => .ok (String.ofList chars)
    | none => .error (.cannotRead w.path "stream did not contain valid UTF-8")

/-- The machine at the start of the program in the file. -/
def machine (w : Surroundings) : Except Failure Machine :=
  match w.content with
  | .error reason => .error (.cannotOpen w.path reason)
  | .ok bytes =>
    match Bytecode.Program.ofBytes bytes with
    | .ok p => .ok (.start p w.loader)
    | .error e => .error (.bytecode w.path e)

end Surroundings

namespace Command

/-- The warnings of a scan, a line for each. -/
def warningLines (s : Source.Scan) : List UInt8 :=
  Report.textBytes (String.join (s.warnings.map fun w => w ++ "\n"))

/-- Shows what comes of the tokens of a source text. -/
def reportSource (path text : String)
    (render : List Source.Token → Except Source.Diagnostic String) : Report :=
  let scan := Source.scanText path text
  let report : Report := { err := warningLines scan }
  match scan.tokens >>= render with
  | .ok shown => { report with out := Report.textBytes shown }
  | .error d => report.failed (.source d)

/-- Assembles a text into a file. -/
def reportAssembly (path text : String) : Report :=
  match Assembly.assemble text with
  | .ok p => { file := some p.toBytes }
  | .error e => .ofFailure (.assembly path e)

/-- The report at the end of a run: the low byte of the exit code is the status. -/
def reportOutcome (o : Outcome) (m : Machine) : Report :=
  let report : Report := { out := m.out.toList, err := m.err.toList }
  match o with
  | .exit code => { report with status := (code % 256).toNat }
  | .fault e => report.failed (.fault e)
  | .unfinished => report.failed .unfinished

/-- The report at the end of a session of the debugger. -/
def reportSession (e : Debugger.Ending) (s : Debugger.Session) : Report :=
  let report : Report := { out := s.output, err := s.machine.err.toList }
  match e with
  | .done => report
  | .fault e => report.failed (.fault e)
  | .unfinished => report.failed .unfinished

/-- What a command does; `fuel` bounds the steps of a run. -/
def execute (fuel : Nat) (w : Surroundings) : Command → Except Failure Report
  | .lex => do
    return reportSource w.path (← w.text) fun ts => .ok (Source.listTokens ts)
  | .parse => do
    return reportSource w.path (← w.text) fun ts => (Source.parse ts).map Source.Program.summary
  | .asm => do return reportAssembly w.path (← w.text)
  | .run => do
    let (o, m) := (← w.machine).runFor fuel
    return reportOutcome o m
  | .disasm => do return .ofText (← w.machine).program.listing
  | .debug => do
    let (e, s) := Debugger.debug fuel (← w.machine) w.stdin
    return reportSession e s

/-- The report of a command. -/
def report (fuel : Nat) (w : Surroundings) (c : Command) : Report :=
  match c.execute fuel w with
  | .ok r => r
  | .error f => .ofFailure f

end Command

end StackLang
