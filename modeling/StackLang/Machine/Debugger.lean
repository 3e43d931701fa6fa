import StackLang.Machine.Run
import StackLang.Text.Blank
import StackLang.Text.Rows

/-!
# The debugger

A session reads commands, one a line: `n` runs one instruction, `b` and an index run until the
index of the next instruction is past it, `p` and a count show that many values from the top, `s`
shows the size of the stack, `q` quits. An empty line repeats the command before it. Only `n` and
`b` execute anything.

What the debugger writes is kept as remarks. Each of them knows how much the program had written
before it, so that the two outputs can be shown apart or in the order in which they came.
-/

namespace StackLang.Debugger

open Numeric

/-- A command of the debugger. -/
inductive Command where
  | step
  | runPast (index : Nat)
  | show (count : Nat)
  | size
  | quit
  | unknown
deriving DecidableEq, Repr

/-- A natural below `2 ^ 64`, a plus sign in front of it allowed. -/
def natural? : List Char → Option Nat
  | '+' :: digits => Numeral.word? 10 digits
  | digits => Numeral.word? 10 digits

/-- The command of a row of words; words after the second are ignored. -/
def Command.ofWords (words : List (List Char)) : Command :=
  match words with
  | [['n']] => .step
  | [['s']] => .size
  | [['q']] => .quit
  | ['b'] :: count :: _ =>
    match natural? count with
    | some n => .runPast n
    | none => .unknown
  | ['p'] :: count :: _ =>
    match natural? count with
    | some n => .show n
    | none => .unknown
  | _ => .unknown

/-- Something that the debugger wrote. -/
structure Remark where
  /-- How many bytes the program had written before. -/
  after : Nat
  text : String
deriving DecidableEq, Repr

/-- How a session ended. -/
inductive Ending where
  /-- The program ended, the user quit, or the input ended. -/
  | done
  | fault (fault : Fault)
  /-- The bound on the number of steps was reached. -/
  | unfinished
deriving DecidableEq, Repr

/-- The state of a session. -/
structure Session where
  machine : Machine
  /-- The command that an empty line repeats. -/
  last : List Char
  /-- What was written, the last remark first. -/
  remarks : List Remark

namespace Session

/-- Writes a text. -/
def write (s : Session) (text : String) : Session :=
  { s with remarks := ⟨s.machine.out.size, text⟩ :: s.remarks }

/-- What the debugger wrote. -/
def transcript (s : Session) : String := String.join (s.remarks.reverse.map (·.text))

/-- What the debugger and the program wrote, in the order in which they did. -/
def output (s : Session) : List UInt8 :=
  let out := s.machine.out.toList
  let (bytes, shown) := s.remarks.reverse.foldl (fun (bytes, shown) r =>
    (bytes ++ (out.drop shown).take (r.after - shown) ++ Text.Utf8.encode r.text.toList,
      max shown r.after)) ([], 0)
  bytes ++ out.drop shown

/-- The lines that show the topmost `count` values, the top first. -/
def valueLines (m : Machine) (count : Nat) : String :=
  let size := m.stack.size
  if size < count then
    s!"can not print {count} elements, the stack only has {size}\n"
  else
    String.join ((m.stack.live.take count).zipIdx.map fun (v, i) =>
      s!"index {size - 1 - i} ({v.tag.name}): {v.render}\n")

/-- Shows the next instruction, if there is one. -/
def prompt (s : Session) : Session :=
  let m := s.machine
  match m.program.code[m.ip]? with
  | some i =>
    if m.isFinished then s
    else s.write (s!"---{i.render m.program.strings}\n" ++ s!"{m.ip}: ")
  | none => s

/-- Steps while the index of the next instruction is at most `index`, `fuel` times at most. -/
def runPast (index : Nat) : Nat → Machine → Ending × Machine
  | 0, m => if m.isFinished || index < m.ip then (.done, m) else (.unfinished, m)
  | fuel + 1, m =>
    if m.isFinished || index < m.ip then (.done, m)
    else
      match m.step with
      | (none, m) => runPast index fuel m
      | (some e, m) => (.fault e, m)

/-- What a command does: the session after it, and the way it ended if it did. -/
def execute (fuel : Nat) (s : Session) (command : List Char) : Option Ending × Session :=
  let answer (text : String) : Option Ending × Session := (none, s.write (text ++ "> "))
  match Command.ofWords (Text.words command) with
  | .step =>
    match s.machine.step with
    | (none, machine) => (none, prompt { s with machine })
    | (some e, machine) => (some (.fault e), { s with machine })
  | .runPast index =>
    match runPast index fuel s.machine with
    | (.done, machine) => (none, prompt { s with machine })
    | (ending, machine) => (some ending, { s with machine })
  | .show count => answer (valueLines s.machine count)
  | .size => answer s!"ss: {s.machine.stack.size}\n"
  | .quit => (some .done, s)
  | .unknown => answer ("unknown command: " ++ String.ofList command ++ "\n")

/-- Obeys a line: the session after it, and the way it ended if it did. -/
def obeyLine (fuel : Nat) (s : Session) (line : List UInt8) : Option Ending × Session :=
  match Text.Utf8.decode? line with
  | none => (some (.fault .malformedInput), s)
  | some chars =>
    let trimmed := Text.trimBoth Text.isBlank chars
    let command := if trimmed.isEmpty then s.last else trimmed
    execute fuel { s with last := command } command

/-- The session where no line is obeyed any more: the program has ended, or the input has. -/
def close (s : Session) : Session :=
  s.write (if s.machine.isFinished then "program finished\n" else "\n")

/-- Obeys lines until the program has ended, the user quits or a step fails. -/
def obey (fuel : Nat) (s : Session) : List (List UInt8) → Ending × Session
  | [] => (.done, s.close)
  | line :: rest =>
    if s.machine.isFinished then (.done, s.close)
    else
      match obeyLine fuel s line with
      | (none, s) => obey fuel s rest
      | (some ending, s) => (ending, s)

/-- The session before its first line. -/
def start (m : Machine) : Session :=
  let s : Session := ⟨m, [], []⟩
  s.write s!"{m.ip}: "

end Session

/-- A session on the commands in `input`; `fuel` bounds the steps of each command. -/
def debug (fuel : Nat) (m : Machine) (input : List UInt8) : Ending × Session :=
  (Session.start m).obey fuel (Text.inputLines input)

end StackLang.Debugger
