import StackLang.Machine.Debugger
import StackLang.Proofs.Machine.Runs
import StackLang.Proofs.Numeric.Numerals
import StackLang.Proofs.Text.Utf8

/-!
# What a debugging session executes

A session obeys one command after the other. The commands in effect are read off the lines alone:
a blank line repeats the one before it. `Debugger.Does` says what each of them does: `n` makes one
step, `b` and an index make steps until the index is past, and all others are idle and make none.
`Debugger.Obeys` says which of them are obeyed: none when the program has ended, and none behind `q`
or a fault. So a session only ever replays the program, and the steps that succeed are those of its
commands, `debug_replays`. A session that runs past the end of the program is a run of it.
-/

namespace StackLang

open Text

namespace Machine

/-- The next `count` steps of `m` succeed and lead to the given machine. -/
inductive Passes (m : Machine) : Nat → Machine → Prop where
  | refl : Passes m 0 m
  | step {count : Nat} {n o : Machine} (before : Passes m count n) (run : n.step = (none, o)) :
      Passes m (count + 1) o

/-- `count` steps of `m` succeed. Without a fault they lead to `n`; with a fault the step behind
them fails with it, and `n` is what it leaves. -/
def Replays (m : Machine) (count : Nat) (fault : Option Fault) (n : Machine) : Prop :=
  match fault with
  | none => m.Passes count n
  | some e => ∃ o, m.Passes count o ∧ o.step = (some e, n)

/-- Steps are made while the program has not ended and the index of the next instruction is at most
`index`. `count` of them succeed; then there is no more to do, or the next one fails. -/
inductive RunsPast (index : Nat) : Machine → Nat → Option Fault → Machine → Prop where
  | past {m : Machine} (isPast : m.isFinished ∨ index < m.ip) : RunsPast index m 0 none m
  | step {m n o : Machine} {count : Nat} {fault : Option Fault} (unfinished : ¬ m.isFinished)
      (inside : m.ip ≤ index) (run : m.step = (none, n)) (rest : RunsPast index n count fault o) :
      RunsPast index m (count + 1) fault o
  | fault {m n : Machine} {e : Fault} (unfinished : ¬ m.isFinished) (inside : m.ip ≤ index)
      (run : m.step = (some e, n)) : RunsPast index m 0 (some e) n

variable {m n o : Machine} {j k : Nat} {fault : Option Fault}

theorem Passes.trans (h : m.Passes j n) (h' : n.Passes k o) : m.Passes (j + k) o := by
  induction h' with
  | refl => exact h
  | step _ run ih => exact .step ih run

theorem Passes.replays (h : m.Passes j n) (h' : n.Replays k fault o) :
    m.Replays (j + k) fault o := by
  cases fault with
  | none => exact h.trans h'
  | some e =>
    obtain ⟨before, passes, failed⟩ := h'
    exact ⟨before, h.trans passes, failed⟩

theorem RunsPast.replays {index : Nat} (h : m.RunsPast index k fault n) :
    m.Replays k fault n := by
  induction h with
  | past => exact .refl
  | step _ _ run _ ih =>
    rw [Nat.add_comm]
    exact (Passes.step .refl run).replays ih
  | fault _ _ run => exact ⟨_, .refl, run⟩

end Machine

/-- The way a session ends after a run. -/
def Outcome.ending : Outcome → Debugger.Ending
  | .exit _ => .done
  | .fault e => .fault e
  | .unfinished => .unfinished

namespace Debugger

open Machine

/-- The fault that a session ends with, if it does. -/
def Ending.fault? : Ending → Option Fault
  | .fault e => some e
  | _ => none

/-! ## Commands -/

/-- The words of a command that executes nothing: neither `n` alone nor `b` with a natural. -/
def IsIdle (words : List (List Char)) : Prop :=
  words ≠ [['n']] ∧ ∀ count more, words = ['b'] :: count :: more → natural? count = none

/-- The command in effect on a line of characters. -/
def commandOf (last : List Char) (chars : List Char) : List Char :=
  if (trimBoth isBlank chars).isEmpty then last else trimBoth isBlank chars

/-- The commands in effect on lines, the first of which follows the command `last`. -/
def inEffect (last : List Char) : List (List UInt8) → List (List Char)
  | [] => []
  | line :: rest =>
    let command := commandOf last ((Utf8.decode? line).getD [])
    command :: inEffect command rest

/-- What a command does, `count` steps of which succeed: nothing if it is idle, one step if it is
`n` alone, and with `b` and a natural the steps until the index of the next instruction is past it.
The last step may fail. -/
inductive Does : List (List Char) → Machine → Nat → Option Fault → Machine → Prop where
  | idle {words : List (List Char)} (idle : IsIdle words) (m : Machine) : Does words m 0 none m
  | step {m n : Machine} (run : m.step = (none, n)) : Does [['n']] m 1 none n
  | fault {m n : Machine} {e : Fault} (run : m.step = (some e, n)) : Does [['n']] m 0 (some e) n
  | runPast {m n : Machine} {text : List Char} {more : List (List Char)} {index count : Nat}
      {fault : Option Fault} (read : natural? text = some index)
      (run : m.RunsPast index count fault n) : Does (['b'] :: text :: more) m count fault n

/-- What is obeyed of the commands in effect, in which `count` steps succeed: one after the other
until the program has ended or the commands have, up to the one that quits or that fails. -/
inductive Obeys : Machine → List (List Char) → Nat → Option Fault → Machine → Prop where
  | finished {m : Machine} (finished : m.isFinished) (commands : List (List Char)) :
      Obeys m commands 0 none m
  | exhausted (m : Machine) : Obeys m [] 0 none m
  | quit {m : Machine} {command : List Char} (unfinished : ¬ m.isFinished)
      (quits : words command = [['q']]) (more : List (List Char)) :
      Obeys m (command :: more) 0 none m
  | fault {m n : Machine} {command : List Char} {e : Fault} {count : Nat}
      (unfinished : ¬ m.isFinished) (did : Does (words command) m count (some e) n)
      (more : List (List Char)) : Obeys m (command :: more) count (some e) n
  | next {m n o : Machine} {command : List Char} {more : List (List Char)} {fault : Option Fault}
      {j k : Nat} (unfinished : ¬ m.isFinished) (stays : words command ≠ [['q']])
      (did : Does (words command) m j none n) (rest : Obeys n more k fault o) :
      Obeys m (command :: more) (j + k) fault o

section

variable {m n : Machine} {count : Nat} {fault : Option Fault}

theorem Does.replays {words : List (List Char)} (h : Does words m count fault n) :
    m.Replays count fault n := by
  cases h with
  | idle => exact .refl
  | step run => exact .step .refl run
  | fault run => exact ⟨m, .refl, run⟩
  | runPast _ run => exact run.replays

/-- An idle command leaves everything as it is. -/
theorem Does.eq_of_isIdle {words : List (List Char)} (h : Does words m count fault n)
    (idle : IsIdle words) : count = 0 ∧ fault = none ∧ n = m := by
  cases h with
  | idle => exact ⟨rfl, rfl, rfl⟩
  | step | fault => exact absurd rfl idle.1
  | runPast read =>
    rw [idle.2 _ _ rfl] at read
    cases read

/-- What is obeyed is replayed. -/
theorem Obeys.replays {commands : List (List Char)} (h : Obeys m commands count fault n) :
    m.Replays count fault n := by
  induction h with
  | finished | exhausted | quit => exact .refl
  | fault _ did => exact did.replays
  | next _ _ did _ ih => exact did.replays.replays ih

/-- A session of idle commands makes no step. -/
theorem Obeys.eq_of_isIdle {commands : List (List Char)} (h : Obeys m commands count fault n)
    (idle : ∀ command ∈ commands, IsIdle (words command)) :
    count = 0 ∧ fault = none ∧ n = m := by
  induction h with
  | finished | exhausted | quit => exact ⟨rfl, rfl, rfl⟩
  | fault _ did =>
    obtain ⟨-, none, -⟩ := did.eq_of_isIdle (idle _ List.mem_cons_self)
    cases none
  | next _ _ did _ ih =>
    obtain ⟨rfl, -, rfl⟩ := did.eq_of_isIdle (idle _ List.mem_cons_self)
    obtain ⟨rfl, none, same⟩ := ih fun command mem => idle command (List.mem_cons_of_mem _ mem)
    exact ⟨rfl, none, same⟩

end

/-! ### The form of a command -/

theorem ofWords_eq_step {words : List (List Char)} (h : Command.ofWords words = .step) :
    words = [['n']] := by
  unfold Command.ofWords at h
  split at h
  · rfl
  all_goals first | cases h | (split at h <;> cases h)

theorem ofWords_eq_runPast {words : List (List Char)} {index : Nat}
    (h : Command.ofWords words = .runPast index) :
    ∃ count more, words = ['b'] :: count :: more ∧ natural? count = some index := by
  unfold Command.ofWords at h
  split at h
  case h_4 count more =>
    split at h
    · rename_i found
      cases h
      exact ⟨count, more, rfl, found⟩
    · cases h
  all_goals first | cases h | (split at h <;> cases h)

theorem ofWords_eq_quit {words : List (List Char)} (h : Command.ofWords words = .quit) :
    words = [['q']] := by
  unfold Command.ofWords at h
  split at h
  case h_3 => rfl
  all_goals first | cases h | (split at h <;> cases h)

theorem isIdle_of_ofWords {words : List (List Char)} (step : Command.ofWords words ≠ .step)
    (runPast : ∀ index, Command.ofWords words ≠ .runPast index) : IsIdle words := by
  refine ⟨fun same => step (by rw [same]; rfl), fun count more same => ?_⟩
  subst same
  cases found : natural? count with
  | none => rfl
  | some index => exact absurd (by simp [Command.ofWords, found]) (runPast index)

theorem isIdle_of_quit {words : List (List Char)} (h : words = [['q']]) : IsIdle words := by
  subst h
  exact ⟨by simp, by simp⟩

namespace Session

variable {fuel index : Nat} {m n : Machine} {s t : Session} {ending : Ending}

/-! ## One command -/

@[simp] theorem machine_write (s : Session) (text : String) :
    (s.write text).machine = s.machine := rfl

@[simp] theorem machine_close (s : Session) : s.close.machine = s.machine := rfl

@[simp] theorem last_write (s : Session) (text : String) : (s.write text).last = s.last := rfl

theorem prompt_cases (s : Session) : s.prompt = s ∨
    ∃ text : String, s.prompt = s.write (text ++ s!"{s.machine.ip}: ") := by
  unfold prompt
  dsimp only
  split
  · split
    · exact .inl rfl
    · exact .inr ⟨_, rfl⟩
  · exact .inl rfl

@[simp] theorem machine_prompt (s : Session) : s.prompt.machine = s.machine := by
  obtain same | ⟨text, written⟩ := s.prompt_cases
  · rw [same]
  · rw [written, machine_write]

@[simp] theorem last_prompt (s : Session) : s.prompt.last = s.last := by
  obtain same | ⟨text, written⟩ := s.prompt_cases
  · rw [same]
  · rw [written, last_write]

theorem exists_runsPast_of_runPast (h : runPast index fuel m = (ending, n))
    (ended : ending ≠ .unfinished) : ∃ count, m.RunsPast index count ending.fault? n := by
  have isPast_of_stop {m : Machine} (stop : m.isFinished || index < m.ip) :
      m.isFinished ∨ index < m.ip := by
    simpa using stop
  induction fuel generalizing m with
  | zero =>
    rw [runPast] at h
    split at h
    · rename_i stop
      cases h
      exact ⟨0, .past (isPast_of_stop stop)⟩
    · cases h
      exact absurd rfl ended
  | succ fuel ih =>
    rw [runPast] at h
    split at h
    · rename_i stop
      cases h
      exact ⟨0, .past (isPast_of_stop stop)⟩
    rename_i inside
    obtain ⟨unfinished, inside⟩ : ¬ m.isFinished ∧ m.ip ≤ index := by simpa using inside
    split at h
    · rename_i next run
      obtain ⟨count, more⟩ := ih h
      exact ⟨count + 1, .step unfinished inside run more⟩
    · rename_i run
      cases h
      exact ⟨0, .fault unfinished inside run⟩

/-- A command does what it should, and only the one that quits ends a session without a fault. -/
theorem does_of_execute {command : List Char} {ending? : Option Ending}
    (h : s.execute fuel command = (ending?, t)) (ended : ending? ≠ some .unfinished) :
    t.last = s.last ∧ (ending? = some .done ↔ words command = [['q']]) ∧
      ∃ count, Does (words command) s.machine count (ending?.bind Ending.fault?) t.machine := by
  unfold execute at h
  dsimp only at h
  split at h
  · rename_i step
    have form := ofWords_eq_step step
    rw [form]
    split at h
    · rename_i machine run
      cases h
      refine ⟨last_prompt _, by simp, 1, ?_⟩
      rw [machine_prompt]
      exact .step run
    · rename_i e machine run
      cases h
      exact ⟨rfl, by simp, 0, .fault run⟩
  · rename_i index past
    obtain ⟨text, more, form, read⟩ := ofWords_eq_runPast past
    rw [form]
    split at h
    · rename_i machine run
      cases h
      obtain ⟨count, ran⟩ := exists_runsPast_of_runPast run (by simp)
      refine ⟨last_prompt _, by simp, count, ?_⟩
      rw [machine_prompt]
      exact .runPast read ran
    · rename_i ending machine notDone run
      cases h
      have ended : ending ≠ .unfinished := fun same => ended (congrArg some same)
      obtain ⟨count, ran⟩ := exists_runsPast_of_runPast run ended
      refine ⟨rfl, ?_, count, .runPast read ran⟩
      simpa using fun same => notDone same
  all_goals
    rename_i other
    have idle : IsIdle (words command) := isIdle_of_ofWords (by simp [other]) (by simp [other])
    cases h
  case h_5 => exact ⟨rfl, by simp [ofWords_eq_quit other], 0, .idle idle _⟩
  all_goals
    refine ⟨rfl, ?_, 0, .idle idle _⟩
    refine iff_of_false (by simp) fun quits => ?_
    rw [quits] at other
    cases other

/-- A line that is a text is obeyed by its command. -/
theorem obeyLine_of_decode {line : List UInt8} {chars : List Char}
    (decoded : Utf8.decode? line = some chars) : s.obeyLine fuel line =
      Session.execute fuel { s with last := commandOf s.last chars } (commandOf s.last chars) := by
  simp only [obeyLine, decoded, commandOf]

/-! ## A session -/

/-- **A session obeys the commands in effect.** -/
theorem exists_obeys_of_obey {lines : List (List UInt8)} (h : s.obey fuel lines = (ending, t))
    (ended : ending ≠ .unfinished)
    (texts : ∀ line ∈ lines, ∃ chars, Utf8.decode? line = some chars) :
    ∃ count, Obeys s.machine (inEffect s.last lines) count ending.fault? t.machine := by
  induction lines generalizing s with
  | nil =>
    cases h
    exact ⟨0, .exhausted _⟩
  | cons line lines ih =>
    rw [obey] at h
    split at h
    · rename_i finished
      cases h
      exact ⟨0, .finished finished _⟩
    rename_i unfinished
    obtain ⟨chars, decoded⟩ := texts line List.mem_cons_self
    have first : inEffect s.last (line :: lines) = commandOf s.last chars ::
        inEffect (commandOf s.last chars) lines := by
      rw [inEffect, decoded]
      rfl
    rw [obeyLine_of_decode decoded] at h
    rw [first]
    generalize commandOf s.last chars = command at h
    split at h
    · rename_i u run
      obtain ⟨last, quits, j, did⟩ := does_of_execute run (by simp)
      obtain ⟨k, more⟩ := ih h fun other mem => texts other (List.mem_cons_of_mem _ mem)
      rw [last] at more
      have stays : words command ≠ [['q']] := fun same => by cases quits.2 same
      exact ⟨j + k, .next unfinished stays did more⟩
    · rename_i ended' u run
      cases h
      obtain ⟨-, quits, count, did⟩ := does_of_execute run (by simpa using ended)
      cases ending with
      | fault e => exact ⟨count, .fault unfinished did _⟩
      | done =>
        obtain ⟨-, -, same⟩ := did.eq_of_isIdle (isIdle_of_quit (quits.1 rfl))
        rw [same]
        exact ⟨0, .quit unfinished (quits.1 rfl) _⟩
      | unfinished => exact absurd rfl ended

/-! ## The transcript -/

/-- The last thing that was written ends with a blank. A session that goes on keeps it so. -/
def EndsBlank (s : Session) : Prop := ∃ text : String, s.transcript = text ++ " "

theorem transcript_write (s : Session) (text : String) :
    (s.write text).transcript = s.transcript ++ text := by
  simp [transcript, write]

theorem endsBlank_write (s : Session) (text : String) : (s.write (text ++ " ")).EndsBlank :=
  ⟨s.transcript ++ text, by rw [transcript_write, String.append_assoc]⟩

theorem EndsBlank.prompt (h : s.EndsBlank) : s.prompt.EndsBlank := by
  obtain same | ⟨text, written⟩ := s.prompt_cases
  · rwa [same]
  · have split : text ++ s!"{s.machine.ip}: " = text ++ toString s.machine.ip ++ ":" ++ " " := by
      simp only [String.append_assoc]
      rfl
    rw [written, split]
    exact endsBlank_write _ _

theorem endsBlank_start (m : Machine) : (start m).EndsBlank := by
  have split : s!"{m.ip}: " = toString m.ip ++ ":" ++ " " := by
    rw [String.append_assoc]
    rfl
  rw [start, split]
  exact endsBlank_write _ _

theorem EndsBlank.execute {command last : List Char} {ending? : Option Ending}
    (blank : s.EndsBlank) (h : Session.execute fuel { s with last } command = (ending?, t)) :
    t.EndsBlank := by
  have answered (text : String) : (write { s with last } (text ++ "> ")).EndsBlank := by
    have split : text ++ "> " = text ++ ">" ++ " " := by
      rw [String.append_assoc]
      rfl
    rw [split]
    exact endsBlank_write _ _
  unfold Session.execute at h
  dsimp only at h
  split at h
  · split at h
    · cases h
      exact EndsBlank.prompt blank
    · cases h
      exact blank
  · split at h
    · cases h
      exact EndsBlank.prompt blank
    · cases h
      exact blank
  · cases h
    exact answered _
  · cases h
    exact answered _
  · cases h
    exact blank
  · cases h
    exact answered _

/-- Whether the transcript ends with the words that the program has finished. -/
def ReportsEnd (s : Session) : Prop := "program finished\n".toList <:+ s.transcript.toList

theorem EndsBlank.not_reportsEnd (h : s.EndsBlank) : ¬ s.ReportsEnd := by
  obtain ⟨text, ends⟩ := h
  rintro ⟨front, same⟩
  rw [ends] at same
  have last := congrArg List.getLast? same
  simp at last

theorem EndsBlank.reportsEnd_close (h : s.EndsBlank) :
    s.close.ReportsEnd ↔ s.machine.isFinished := by
  obtain ⟨text, ends⟩ := h
  unfold ReportsEnd close
  rw [transcript_write]
  by_cases finished : s.machine.isFinished
  · simp [finished]
  · refine iff_of_false ?_ finished
    rintro ⟨front, same⟩
    -- The last character but one is the blank from before, where the words have a letter.
    have last := congrArg (fun chars => chars.dropLast.getLast?) same
    simp [finished, ends, List.dropLast_append_of_ne_nil] at last

/-- A session that ends because the program has ended tells so, and no other does. -/
theorem reportsEnd_of_obey {lines : List (List UInt8)} (blank : s.EndsBlank)
    (h : s.obey fuel lines = (ending, t)) :
    t.ReportsEnd ↔ t.machine.isFinished ∧ ending = .done := by
  induction lines generalizing s with
  | nil =>
    cases h
    simpa using blank.reportsEnd_close
  | cons line lines ih =>
    rw [obey] at h
    split at h
    · cases h
      simpa using blank.reportsEnd_close
    rename_i unfinished
    cases decoded : Utf8.decode? line with
    | none =>
      simp only [obeyLine, decoded] at h
      cases h
      simpa using blank.not_reportsEnd
    | some chars =>
      rw [obeyLine_of_decode decoded] at h
      split at h
      · rename_i u run
        exact ih (EndsBlank.execute blank run) h
      · rename_i ended u run
        cases h
        refine iff_of_false (EndsBlank.execute blank run).not_reportsEnd ?_
        rintro ⟨finished, rfl⟩
        obtain ⟨-, quits, _, did⟩ := does_of_execute run (by simp)
        obtain ⟨-, -, same⟩ := did.eq_of_isIdle (isIdle_of_quit (quits.1 rfl))
        rw [same] at finished
        exact unfinished finished

/-! ## Running past the end -/

/-- To run past an index behind the last instruction is to run to the end. -/
theorem runPast_eq_runToEnd (past : m.program.code.size ≤ index) :
    runPast index fuel m = ((m.runToEnd fuel).1.ending, (m.runToEnd fuel).2) := by
  have stops (fuel : Nat) {m : Machine} (past : m.program.code.size ≤ index) :
      (m.isFinished || index < m.ip) = m.isFinished := by
    rw [Bool.or_eq_left_iff_imp, decide_eq_true_eq]
    intro lt
    simp only [isFinished, Bool.or_eq_true, decide_eq_true_eq]
    exact .inr (by omega)
  induction fuel generalizing m with
  | zero =>
    rw [runPast, Machine.runToEnd, stops 0 past]
    split <;> rfl
  | succ fuel ih =>
    rw [runPast, Machine.runToEnd, stops 0 past]
    split
    · rfl
    cases run : m.step with
    | mk fault n =>
      cases fault with
      | some e => rfl
      | none => exact ih (program_of_step run ▸ past)

/-- A session of one line that runs past the end is a run. -/
theorem obey_runPast {line : List UInt8} {chars : List Char} (halt : s.machine.halt = none)
    (past : s.machine.program.code.size ≤ index) (decoded : Utf8.decode? line = some chars)
    (command : Command.ofWords (words (commandOf s.last chars)) = .runPast index) :
    (s.obey fuel [line]).1 = (s.machine.runFor fuel).1.ending ∧
      (s.obey fuel [line]).2.machine = (s.machine.runFor fuel).2 := by
  have run : s.machine.runFor fuel = s.machine.runToEnd fuel := by simp [runFor, halt]
  rw [run, obey]
  by_cases finished : s.machine.isFinished
  · rw [if_pos finished]
    cases fuel <;> simp [Machine.runToEnd, finished, Outcome.ending]
  rw [if_neg finished, obeyLine_of_decode decoded]
  unfold Session.execute
  dsimp only
  rw [command]
  dsimp only
  rw [runPast_eq_runToEnd past]
  cases (s.machine.runToEnd fuel).1 with
  | exit code => simp [Outcome.ending, obey]
  | fault e => exact ⟨rfl, rfl⟩
  | unfinished => exact ⟨rfl, rfl⟩

end Session

/-! ## The text of a command -/

theorem wordsFrom_of_forall {p : Char → Bool} {word text : List Char}
    (h : ∀ c ∈ text, p c = false) (nonempty : word.reverse ++ text ≠ []) :
    wordsFrom p word text = [word.reverse ++ text] := by
  induction text generalizing word with
  | nil =>
    have : word ≠ [] := by simpa using nonempty
    simp [wordsFrom, this]
  | cons c text ih =>
    rw [List.forall_mem_cons] at h
    rw [wordsFrom, if_neg (by simp [h.1]), ih h.2 (by simp)]
    simp

theorem trimBoth_of_ends {p : Char → Bool} {first last : Char} (middle : List Char)
    (hf : p first = false) (hl : p last = false) :
    trimBoth p (first :: middle ++ [last]) = first :: middle ++ [last] := by
  simp [trimBoth, hf, hl]

/-- The line `b` with a natural. -/
def pastLine (n : Nat) : String := "b " ++ toString n

theorem toList_pastLine (n : Nat) : (pastLine n).toList = 'b' :: ' ' :: Nat.toDigits 10 n := by
  have digits : (toString n).toList = Nat.toDigits 10 n := String.toList_ofList
  rw [pastLine, String.toList_append, digits]
  rfl

/-- The line is the command to run past the natural. -/
theorem ofWords_pastLine {n : Nat} (lt : n < 2 ^ 64) (last : List Char) :
    Command.ofWords (words (commandOf last (pastLine n).toList)) = .runPast n := by
  have text := toList_pastLine n
  have plain : ∀ c ∈ Nat.toDigits 10 n, isBlank c = false ∧ c ≠ '+' :=
    Numeric.Numeral.forall_mem_toDigits 10 (by decide) (by decide) n
  have nonempty : Nat.toDigits 10 n ≠ [] := Nat.toDigits_ne_nil
  have trimmed : trimBoth isBlank (pastLine n).toList = (pastLine n).toList := by
    have split := List.dropLast_concat_getLast nonempty
    rw [text, ← split]
    exact trimBoth_of_ends (' ' :: (Nat.toDigits 10 n).dropLast) (by decide)
      (plain _ (List.getLast_mem nonempty)).1
  have separated : words (pastLine n).toList = [['b'], Nat.toDigits 10 n] := by
    rw [text, words, wordsFrom, if_neg (by decide), wordsFrom, if_pos (by decide),
      if_neg (by decide), wordsFrom_of_forall (fun c mem => (plain c mem).1) (by simp)]
    rfl
  have read : natural? (Nat.toDigits 10 n) = some n := by
    rw [← Numeric.Numeral.word?_toDigits 10 (by decide) (by decide) lt]
    unfold natural?
    split
    · rename_i signed
      exact absurd rfl (plain '+' (signed ▸ List.mem_cons_self)).2
    · rfl
  rw [commandOf, trimmed, if_neg (by simp [text]), separated]
  simp only [Command.ofWords, read]

theorem lineFeed_not_mem_pastLine (n : Nat) : lineFeed ∉ Utf8.encode (pastLine n).toList := by
  have plain : ∀ c ∈ Nat.toDigits 10 n, IsAscii c ∧ c ≠ '\n' :=
    Numeric.Numeral.forall_mem_toDigits 10 (by decide) (by decide) n
  refine lineFeed_not_mem_encode fun c mem => ?_
  rw [toList_pastLine, List.mem_cons, List.mem_cons] at mem
  rcases mem with rfl | rfl | mem
  · decide
  · decide
  · exact plain c mem

/-- Read as lines, the line is itself, with or without a line feed behind it. -/
theorem inputLines_pastLine (n : Nat) {text : String}
    (h : text = pastLine n ∨ text = pastLine n ++ "\n") :
    inputLines (Utf8.encode text.toList) = [Utf8.encode (pastLine n).toList] := by
  have clean := lineFeed_not_mem_pastLine n
  have nonempty : Utf8.encode (pastLine n).toList ≠ [] := by
    rw [toList_pastLine, Utf8.encode, List.flatMap_cons]
    exact List.append_ne_nil_of_left_ne_nil (by decide) _
  unfold inputLines
  rcases h with rfl | rfl
  · simp [rows_of_not_mem clean, nonempty]
  · have feed : Utf8.encode "\n".toList = [lineFeed] := by decide
    rw [String.toList_append, Utf8.encode_append, feed, rows_append clean]
    rfl

/-! ## Whole sessions -/

/-- **A session only replays the program.** When a session on a text of commands is over, some
number of steps have succeeded and the machine is where they lead, or the step behind them has
failed with the fault of the session and left the machine. These steps are those that the commands
in effect make, one after the other, and idle commands and the end of the text make none. The
transcript ends with `program finished` exactly if the machine is finished and there was no fault. A
session of the one command to run past an index that is not inside of the program ends like a run,
in the same state. -/
theorem debug_replays (fuel : Nat) (m : Machine) :
    (∀ (commands : String) (ending : Ending) (s : Session),
      debug fuel m (Utf8.encode commands.toList) = (ending, s) → ending ≠ .unfinished →
        ∃ count, m.Replays count ending.fault? s.machine ∧
          Obeys m (inEffect [] (inputLines (Utf8.encode commands.toList))) count ending.fault?
            s.machine ∧
          ((∀ command ∈ inEffect [] (inputLines (Utf8.encode commands.toList)),
            IsIdle (words command)) → count = 0 ∧ s.machine = m) ∧
          ("program finished\n".toList <:+ s.transcript.toList ↔
            s.machine.isFinished ∧ ending = .done)) ∧
    ∀ (n : Nat) (commands : String),
      m.halt = none → m.program.code.size ≤ n → n < 2 ^ 64 →
        commands = pastLine n ∨ commands = pastLine n ++ "\n" →
          (debug fuel m (Utf8.encode commands.toList)).1 = (m.runFor fuel).1.ending ∧
          (debug fuel m (Utf8.encode commands.toList)).2.machine = (m.runFor fuel).2 := by
  constructor
  · intro commands ending s run ended
    have texts : ∀ line ∈ inputLines (Utf8.encode commands.toList),
        ∃ chars, Utf8.decode? line = some chars := by
      intro line mem
      obtain ⟨chars, rfl⟩ := Utf8.exists_encode_of_mem_inputLines mem
      exact ⟨chars, Utf8.decode?_encode chars⟩
    obtain ⟨count, obeys⟩ := Session.exists_obeys_of_obey run ended texts
    refine ⟨count, obeys.replays, obeys, fun idle => ?_,
      Session.reportsEnd_of_obey (Session.endsBlank_start m) run⟩
    obtain ⟨none, -, same⟩ := obeys.eq_of_isIdle idle
    exact ⟨none, same⟩
  · intro n commands halt past lt text
    rw [debug, inputLines_pastLine n text]
    exact Session.obey_runPast halt past (Utf8.decode?_encode _) (ofWords_pastLine lt _)

/-- The machine in front of a sum of two numbers. -/
def summing : Machine :=
  start { code := #[{ op := .push }, { op := .push }, { op := .add }, { op := .halt }] } .none

/-- Two steps, the second one by an empty line, a look at the stack and a run to the end. -/
def summingCommands : String := "n\n\ns\nb 9\n"

theorem debug_replays_summing :
    (debug 9 summing (Utf8.encode summingCommands.toList)).1 = .done ∧
      (debug 9 summing (Utf8.encode summingCommands.toList)).2.machine.isFinished ∧
      (∃ count, summing.Replays count none
          (debug 9 summing (Utf8.encode summingCommands.toList)).2.machine ∧
        Obeys summing [['n'], ['n'], ['s'], ['b', ' ', '9']] count none
          (debug 9 summing (Utf8.encode summingCommands.toList)).2.machine) ∧
      "program finished\n".toList <:+
        (debug 9 summing (Utf8.encode summingCommands.toList)).2.transcript.toList ∧
      summing.halt = none ∧ summing.program.code.size ≤ 9 ∧
      (debug 9 summing (Utf8.encode (pastLine 9).toList)).2.machine = (summing.runFor 9).2 := by
  have ending : (debug 9 summing (Utf8.encode summingCommands.toList)).1 = .done := by
    decide +kernel
  have finished : (debug 9 summing (Utf8.encode summingCommands.toList)).2.machine.isFinished := by
    decide +kernel
  have effect : inEffect [] (inputLines (Utf8.encode summingCommands.toList)) =
      [['n'], ['n'], ['s'], ['b', ' ', '9']] := by
    decide +kernel
  obtain ⟨sessions, runs⟩ := debug_replays 9 summing
  have run := runs 9 (pastLine 9) rfl (by decide) (by decide) (.inl rfl)
  cases session : debug 9 summing (Utf8.encode summingCommands.toList) with
  | mk last s =>
    rw [session] at ending finished
    cases ending
    obtain ⟨count, replays, obeys, -, reports⟩ := sessions summingCommands _ s session (by decide)
    rw [effect] at obeys
    exact ⟨rfl, finished, ⟨count, replays, obeys⟩, reports.2 ⟨finished, rfl⟩, rfl, by decide, run.2⟩

end Debugger

end StackLang
