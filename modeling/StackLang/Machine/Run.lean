import StackLang.Machine.Step

/-!
# Runs

A run repeats steps until the program has ended or an instruction fails. `runFor` makes a bounded
number of steps and says whether that was enough; a bound that was enough once makes no difference
when it is raised.
-/

namespace StackLang

/-- How a run ended. -/
inductive Outcome where
  | exit (code : Int)
  | fault (fault : Fault)
  /-- The bound on the number of steps was reached. -/
  | unfinished
deriving DecidableEq, Repr

namespace Machine

/-- Steps until nothing is left to run, `fuel` times at most. -/
def runToEnd : Nat → Machine → Outcome × Machine
  | 0, m => if m.isFinished then (.exit (m.halt.getD 0), m) else (.unfinished, m)
  | fuel + 1, m =>
    if m.isFinished then (.exit (m.halt.getD 0), m)
    else
      match m.step with
      | (none, m) => runToEnd fuel m
      | (some e, m) => (.fault e, m)

/-- Runs a program to its end; one that has halted cannot be run again. -/
def runFor (fuel : Nat) (m : Machine) : Outcome × Machine :=
  if m.halt.isSome then (.fault .halted, m) else runToEnd fuel m

end Machine

end StackLang
