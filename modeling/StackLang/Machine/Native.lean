import StackLang.Machine.Stack

/-!
# Native functions

A native function is built in or foreign. A foreign one reaches the machine through its operand
stack only: it is an `Interaction`, a row of pops and pushes in which each call may depend on the
values popped before. A pop from an empty stack hands it the integer zero, a push onto a full one
does nothing, and the first such failure is kept until the function returns.
-/

namespace StackLang

/-- What a foreign function does with the operand stack. -/
inductive Interaction where
  | done
  | pop (next : Value → Interaction)
  | push (v : Value) (next : Interaction)

namespace Interaction

/-- The stack after the interaction, and the first failure, `pending` if there was one before. -/
def run : Interaction → Stack → Option Fault → Stack × Option Fault
  | .done, s, pending => (s, pending)
  | .pop next, s, pending =>
    match s.pop with
    | .ok (v, s) => (next v).run s pending
    | .error e => (next (.int 0)).run s (pending.or (some e))
  | .push v next, s, pending =>
    match s.push v with
    | .ok s => next.run s pending
    | .error e => next.run s (pending.or (some e))

end Interaction

/-- A function of the native table. -/
inductive Native where
  /-- Pops a stream and the address of a text and writes the text to the stream. -/
  | write
  /-- Pops an exit code and halts with it. -/
  | exit
  /-- Halts with a fixed exit code. -/
  | haltWith (code : Int)
  /-- Fails. -/
  | failWith (fault : Fault)
  | foreign (interaction : Interaction)

/-- The libraries that can be loaded: for a name, the functions by the names of their symbols. -/
abbrev Loader := List UInt8 → Option (List UInt8 → Option Interaction)

/-- No library can be loaded. -/
def Loader.none : Loader := fun _ => .none

end StackLang
