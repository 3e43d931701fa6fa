import StackLang.Command

/-!
# The program

Reads the file of a command and hands on what the command says. A run and a session of the
debugger show what they write as they go: a run in slices of steps, a session after every line.
-/

namespace StackLang.Main

/-- How the program is called. -/
def usage : String :=
  "usage: stacklang <lex|parse|asm|run|disasm|debug> <file>\n" ++
    "       stacklang asm <file> -o <output>\n"

/-- The steps of a slice of a run. -/
def slice : Nat := 100000

/-- The reason why a file operation failed. -/
def reason (e : IO.Error) : String :=
  match e with
  | .noFileOrDirectory .. => "No such file or directory (os error 2)"
  | .permissionDenied .. => "Permission denied (os error 13)"
  | .inappropriateType .. => "Is a directory (os error 21)"
  | e => toString e

/-- How many bytes of a report have been shown on each stream. -/
structure Shown where
  out : Nat := 0
  err : Nat := 0

/-- Writes bytes to a stream at once. -/
def put (stream : IO.FS.Stream) (bytes : List UInt8) : IO Unit := do
  stream.write bytes.toByteArray
  stream.flush

/-- Shows the rest of a report. -/
def present (shown : Shown) (r : Report) : IO Shown := do
  put (← IO.getStdout) (r.out.drop shown.out)
  put (← IO.getStderr) (r.err.drop shown.err)
  return { out := r.out.length, err := r.err.length }

/-- Shows the rest of the last report and writes its file. Gives the exit status. -/
def finish (v : Invocation) (shown : Shown) (r : Report) : IO UInt32 := do
  let _ ← present shown r
  match r.file with
  | none => return r.status.toUInt32
  | some bytes =>
    match ← (IO.FS.writeBinFile v.output bytes.toByteArray).toBaseIO with
    | .ok () => return r.status.toUInt32
    | .error e =>
      IO.eprintln s!"could not create {v.output}: {reason e}"
      return 1

/-- Runs a machine slice by slice. -/
partial def run (v : Invocation) (m : Machine) : IO UInt32 := do
  match m.runFor slice with
  | (.unfinished, m) =>
    let _ ← present {} (Command.reportOutcome (.exit 0) m)
    run v { m with out := #[], err := #[] }
  | (outcome, m) => finish v {} (Command.reportOutcome outcome m)

/-- The bytes up to the next line feed, behind those in `line`; `none` at the end of the stream. -/
partial def readLine (stream : IO.FS.Stream) (line : Array UInt8) :
    IO (Option (List UInt8)) := do
  let bytes ← stream.read 1
  match bytes.toList with
  | [] => return if line.isEmpty then none else some line.toList
  | b :: _ => if b = Text.lineFeed then return some line.toList else readLine stream (line.push b)

/-- Obeys the lines of the standard input. A command that a slice of steps did not finish is
`pending`, and an empty line goes on with it. -/
partial def obey (v : Invocation) (s : Debugger.Session) (shown : Shown) (pending : Bool) :
    IO UInt32 := do
  let shown ← present shown (Command.reportSession .done s)
  if s.machine.isFinished then finish v shown (Command.reportSession .done s.close)
  else
    let line ← if pending then pure (some []) else readLine (← IO.getStdin) #[]
    match line with
    | none => finish v shown (Command.reportSession .done s.close)
    | some line =>
      match s.obeyLine slice line with
      | (none, s) => obey v s shown false
      | (some .unfinished, s) => obey v s shown true
      | (some ending, s) => finish v shown (Command.reportSession ending s)

/-- Does what a command line says. -/
def execute (v : Invocation) : IO UInt32 := do
  let content ← (IO.FS.readBinFile v.path).toBaseIO
  let w : Surroundings := {
    path := v.path
    content := match content with
      | .ok bytes => .ok bytes.toList
      | .error e => .error (reason e) }
  match v.command, w.machine with
  | .run, .ok m => run v m
  | .debug, .ok m => obey v (.start m) {} false
  | command, _ => finish v {} (command.report slice w)

end StackLang.Main

/-- The program. -/
def main (args : List String) : IO UInt32 := do
  match StackLang.Invocation.ofArgs? args with
  | some v => StackLang.Main.execute v
  | none =>
    IO.eprint StackLang.Main.usage
    return 2
