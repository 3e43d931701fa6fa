import StackLang.Proofs.Machine.Cells

/-!
# Foreign functions

A foreign function pops and pushes as it likes and is told of no failure. `Interaction.Plays` lists
its calls one after the other, each with its own effect on the stack and with its fault if it
fails. The machine keeps the first of these faults until the function returns, and then the
instruction fails with it. `foreign_of_runs` relates the two: the instruction reports the first
fault of its own calls and no other, and once it has ended nothing of the fault is left.
-/

namespace StackLang

open Bytecode

namespace Interaction

/-- The calls of an interaction in order, each `none` or the fault that it fails with, and the
stacks in front of the first and behind the last of them. A failed pop hands back zero, and a
failed push leaves the stack alone. -/
inductive Plays : Interaction → Stack → List (Option Fault) → Stack → Prop where
  | done (s : Stack) : Plays .done s [] s
  | pop {next : Value → Interaction} {v : Value} {live free : List Value}
      {calls : List (Option Fault)} {t : Stack}
      (more : Plays (next v) ⟨live, v :: free⟩ calls t) :
      Plays (.pop next) ⟨v :: live, free⟩ (none :: calls) t
  | popEmpty {next : Value → Interaction} {free : List Value} {calls : List (Option Fault)}
      {t : Stack} (more : Plays (next (.int 0)) ⟨[], free⟩ calls t) :
      Plays (.pop next) ⟨[], free⟩ (some .stackUnderflow :: calls) t
  | push {v w : Value} {next : Interaction} {live free : List Value}
      {calls : List (Option Fault)} {t : Stack}
      (more : Plays next ⟨v :: live, free⟩ calls t) :
      Plays (.push v next) ⟨live, w :: free⟩ (none :: calls) t
  | pushFull {v : Value} {next : Interaction} {live : List Value} {calls : List (Option Fault)}
      {t : Stack} (more : Plays next ⟨live, []⟩ calls t) :
      Plays (.push v next) ⟨live, []⟩ (some .stackOverflow :: calls) t

/-- The first fault among the calls. -/
def firstFault (calls : List (Option Fault)) : Option Fault := calls.findSome? id

theorem firstFault_none_cons (calls : List (Option Fault)) :
    firstFault (none :: calls) = firstFault calls := rfl

theorem firstFault_of_forall {calls : List (Option Fault)} (served : ∀ c ∈ calls, c = none) :
    firstFault calls = none := List.findSome?_eq_none_iff.2 served

theorem firstFault_append {before : List (Option Fault)} (served : ∀ c ∈ before, c = none)
    (e : Fault) (after : List (Option Fault)) :
    firstFault (before ++ some e :: after) = some e := by
  have front : before.findSome? id = none := firstFault_of_forall served
  rw [firstFault, List.findSome?_append, front]
  rfl

variable {f : Interaction} {s t : Stack} {calls : List (Option Fault)}

/-- Every interaction plays on every stack. -/
theorem exists_plays (f : Interaction) (s : Stack) : ∃ calls t, f.Plays s calls t := by
  induction f generalizing s with
  | done => exact ⟨[], s, .done s⟩
  | pop next ih =>
    obtain ⟨live, free⟩ := s
    cases live with
    | nil =>
      obtain ⟨calls, t, more⟩ := ih (.int 0) ⟨[], free⟩
      exact ⟨_, t, .popEmpty more⟩
    | cons v live =>
      obtain ⟨calls, t, more⟩ := ih v ⟨live, v :: free⟩
      exact ⟨_, t, .pop more⟩
  | push v next ih =>
    obtain ⟨live, free⟩ := s
    cases free with
    | nil =>
      obtain ⟨calls, t, more⟩ := ih ⟨live, []⟩
      exact ⟨_, t, .pushFull more⟩
    | cons w free =>
      obtain ⟨calls, t, more⟩ := ih ⟨v :: live, free⟩
      exact ⟨_, t, .push more⟩

/-- And it plays in one way. -/
theorem Plays.unique (h : f.Plays s calls t) {calls' : List (Option Fault)} {t' : Stack}
    (h' : f.Plays s calls' t') : calls' = calls ∧ t' = t := by
  induction h generalizing calls' t' with
  | done s =>
    cases h'
    exact ⟨rfl, rfl⟩
  | pop _ ih | popEmpty _ ih | push _ ih | pushFull _ ih =>
    cases h' with
    | _ more =>
      obtain ⟨rfl, rfl⟩ := ih more
      exact ⟨rfl, rfl⟩

/-- The machine makes these calls, and keeps the fault that it had or else the first one. -/
theorem Plays.run (h : f.Plays s calls t) (pending : Option Fault) :
    f.run s pending = (t, pending.or (firstFault calls)) := by
  induction h generalizing pending with
  | done s =>
    rw [Interaction.run, firstFault, List.findSome?_nil, Option.or_none]
  | pop _ ih | push _ ih =>
    rw [firstFault_none_cons]
    exact ih pending
  | @popEmpty _ _ calls _ _ ih =>
    have later := ih (pending.or (some .stackUnderflow))
    rw [Option.or_assoc, Option.some_or] at later
    exact later
  | @pushFull _ _ _ calls _ _ ih =>
    have later := ih (pending.or (some .stackOverflow))
    rw [Option.or_assoc, Option.some_or] at later
    exact later

end Interaction

namespace Exec

/-- A call of a foreign function ends with the first fault of its calls, and without any pending
one. -/
theorem callForeign_of_plays {m : Machine} {f : Interaction} {calls : List (Option Fault)}
    {t : Stack} (plays : f.Plays m.stack calls t) (idle : m.pending = none) :
    callForeign f m =
      match Interaction.firstFault calls with
      | none => .ok () { m with stack := t }
      | some e => .error e { m with stack := t } := by
  have ran := plays.run m.pending
  rw [idle, Option.none_or] at ran
  have same : ({ m with stack := t } : Machine) = { m with stack := t, pending := none } := by
    rw [← idle]
  rw [same]
  unfold callForeign
  rw [bind_get, idle, ran]
  cases Interaction.firstFault calls <;> rfl

end Exec

namespace Machine

variable {m n : Machine}

/-! ## No fault is pending between two steps -/

theorem pending_of_move {i : Instruction} {e : Option Fault} (h : m.Move i e n)
    (idle : m.pending = none) : n.pending = none := by
  cases h with
  | fault frame => exact frame.pending idle
  | next _ frame => exact frame.pending idle
  | jump _ frame => exact frame.pending idle
  | call => exact idle
  | ret => exact idle

theorem pending_of_step {e : Option Fault} (h : m.step = (e, n)) (idle : m.pending = none) :
    n.pending = none := by
  obtain ⟨-, -, rfl⟩ | ⟨i, -, -, move⟩ := step_cases h
  · exact idle
  · exact pending_of_move move idle

theorem pending_of_runs {done : List Nat} (run : m.Runs done n) (idle : m.pending = none) :
    n.pending = none := by
  induction run with
  | refl => exact idle
  | succeed _ step ih => exact pending_of_step step ih
  | fail _ step ih => exact pending_of_step step ih
  | add _ added ih => exact (frame_of_addNative added).pending ih

/-! ## The instruction -/

/-- What a step does that calls a foreign function. -/
theorem step_of_plays {i : Instruction} {f : Interaction} {calls : List (Option Fault)} {t : Stack}
    (found : m.next? = some i) (halt : m.halt = none) (op : i.op = .native)
    (native : m.native? i.value.toInt = some (.foreign f)) (idle : m.pending = none)
    (plays : f.Plays m.stack calls t) :
    m.step =
      match Interaction.firstFault calls with
      | none => (none, { m with stack := t, ip := m.ip + 1 })
      | some e => (some e, { m with stack := t }) := by
  have called : Exec.effect i m = Exec.callForeign f m := by
    unfold Exec.effect Exec.callNative
    unfold native? at native
    rw [op]
    dsimp only
    rw [Exec.bind_get, native]
  rw [step_of_effect found halt (by rw [op]; rfl) (by rw [op]; decide), called,
    Exec.callForeign_of_plays plays idle]
  cases Interaction.firstFault calls <;> rfl

/-- **A foreign function fails with its first stack fault, and once.** In every machine of a run, a
`native` instruction that calls a foreign function makes the calls of the function one after the
other, in one way, whether or not one of them fails. It succeeds if all of them were served, and
fails with the fault of the first that was not. Either way the machine is the one before it but for
the stack that the calls leave, and but for the index if it succeeds. So no fault is pending
behind it, nor is one in any machine that comes later. -/
theorem foreign_of_runs {p : Program} {loader : Loader} {done : List Nat} {i : Instruction}
    {f : Interaction} (run : (start p loader).Runs done m) (found : m.next? = some i)
    (halt : m.halt = none) (op : i.op = .native)
    (native : m.native? i.value.toInt = some (.foreign f)) :
    (∃ calls t, f.Plays m.stack calls t) ∧
      ∀ calls t, f.Plays m.stack calls t →
        (∀ calls' t', f.Plays m.stack calls' t' → calls' = calls ∧ t' = t) ∧
        ((∀ c ∈ calls, c = none) → m.step = (none, { m with stack := t, ip := m.ip + 1 })) ∧
        (∀ before e after, calls = before ++ some e :: after → (∀ c ∈ before, c = none) →
          m.step = (some e, { m with stack := t })) ∧
        ∀ later n, m.step.2.Runs later n → n.pending = none := by
  have idle : m.pending = none := pending_of_runs run rfl
  refine ⟨f.exists_plays m.stack, fun calls t plays => ?_⟩
  have stepped := step_of_plays found halt op native idle plays
  refine ⟨fun calls' t' plays' => plays.unique plays', ?_, ?_, ?_⟩
  · intro served
    rw [stepped, Interaction.firstFault_of_forall served]
  · rintro before e after rfl served
    rw [stepped, Interaction.firstFault_append served]
  · intro later n behind
    exact pending_of_runs behind (pending_of_step (e := m.step.1) rfl idle)

/-- Pops twice and pushes what it got, in the other order. -/
def turnOver : Interaction := .pop fun v => .pop fun w => .push v (.push w .done)

/-- A program that calls the function behind the built-in ones with one value on the stack. -/
def turning : Program where
  code := #[{ op := .push, value := .ofNat 7 }, { op := .native, value := .ofNat 2 }]

/-- The machine at the start of the program, with the function in its table. -/
def beforeTurning : Machine :=
  { start turning .none with natives := #[.write, .exit, .foreign turnOver] }

theorem plays_turnOver (free : List Value) (a : Value) :
    turnOver.Plays ⟨[.int 7], a :: free⟩ [none, some .stackUnderflow, none, none]
      ⟨[.int 0, .int 7], free⟩ :=
  .pop (.popEmpty (.push (.push (.done _))))

/-- The value that is missing is zero, and the fault of the pop is that of the instruction. When the
instruction is tried again there are two values on the stack. -/
theorem foreign_of_runs_turning :
    ∃ m, (start turning .none).Runs [0] m ∧ m.next?.map Instruction.op = some .native ∧
      m.halt = none ∧ m.native? 2 = some (.foreign turnOver) ∧
      m.step.1 = some .stackUnderflow ∧ m.step.2.stack.live = [.int 0, .int 7] ∧
      m.step.2.pending = none ∧ m.step.2.step.1 = none := by
  have added : (start turning .none).addNative (.foreign turnOver) = .ok (2, beforeTurning) :=
    rfl
  have run : (start turning .none).Runs [0] beforeTurning.step.2 :=
    .succeed (.add (.refl _) added) rfl
  have native : beforeTurning.step.2.native? 2 = some (.foreign turnOver) := rfl
  obtain ⟨-, each⟩ := foreign_of_runs (i := { op := .native, value := .ofNat 2 }) run rfl rfl rfl
    native
  obtain ⟨-, -, fails, later⟩ := each _ _ (plays_turnOver _ _)
  have failed := fails [none] _ [none, none] rfl (by simp)
  refine ⟨_, run, rfl, rfl, native, ?_, ?_, later [] _ (.refl _), rfl⟩
  · rw [failed]
  · rw [failed]

end Machine

end StackLang
