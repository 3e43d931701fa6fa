import StackLang.Proofs.Machine.Frame

/-!
# What a step does to the flow of control

A step fails and moves nothing, goes on to the next instruction, jumps inside the program, enters
a call or returns from one. `Machine.Move` lists these cases with their conditions, and
`step_cases` says that there are no others; facts about the flow of control need no other look at
a step. `Machine.Runs` are the runs that a user of a machine can make: steps, whatever they give,
and additions to the native table in any order.
-/

namespace StackLang

open Bytecode

/-- How the instruction `i` of `m` ends: with its fault, if it fails, and the machine after it. -/
inductive Machine.Move (m : Machine) (i : Instruction) : Option Fault → Machine → Prop where
  | fault {e : Fault} {n : Machine} (frame : m.Frame n) : Move m i (some e) n
  | next {n : Machine} (op : i.op ≠ .call ∧ i.op ≠ .ret) (frame : m.Frame n) :
      Move m i none { n with ip := m.ip + 1 }
  | jump {n : Machine} {target : Nat} (op : i.op.isJump ∧ i.op ≠ .call) (frame : m.Frame n)
      (operand : i.value.toInt = target) (nonzero : target ≠ 0)
      (inside : target < m.program.code.size) :
      Move m i none { n with ip := target }
  | call {target : Nat} (op : i.op = .call) (room : m.returns.length < returnCapacity)
      (operand : i.value.toInt = target) (nonzero : target ≠ 0)
      (inside : target < m.program.code.size) :
      Move m i none { m with returns := m.ip :: m.returns, ip := target }
  | ret {caller : Nat} {returns : List Nat} (op : i.op = .ret)
      (called : m.returns = caller :: returns) :
      Move m i none { m with returns, ip := caller + 1 }

namespace Exec

/-- A target that is a jump can go to, or a fault that leaves the machine alone. -/
theorem jumpTarget_cases (i : Instruction) (m : Machine) :
    (∃ target : Nat, jumpTarget i m = .ok target m ∧ i.value.toInt = target ∧ target ≠ 0 ∧
      target < m.program.code.size) ∨
    ∃ e, jumpTarget i m = .error e m := by
  by_cases zero : i.value.toInt = 0
  · have read : jumpTarget i m = (throw .jumpToZero : Exec Nat) m := by
      unfold jumpTarget
      simp only [if_pos zero]
    exact .inr ⟨.jumpToZero, read⟩
  have read : jumpTarget i m =
      (if i.value.toInt < 0 ∨ (m.program.code.size : Int) ≤ i.value.toInt then
        throw (.jumpOutOfBounds i.op i.value.toInt)
      else return i.value.toInt.toNat : Exec Nat) m := by
    unfold jumpTarget
    simp only [if_neg zero]
    rfl
  by_cases outside : i.value.toInt < 0 ∨ (m.program.code.size : Int) ≤ i.value.toInt
  · rw [if_pos outside] at read
    exact .inr ⟨_, read⟩
  · rw [if_neg outside] at read
    exact .inl ⟨i.value.toInt.toNat, read, by omega, by omega, by omega⟩

/-- Where an action goes if it gives the index of the next instruction. -/
def Moves (i : Instruction) (x : Exec Nat) (m : Machine) : Prop :=
  match x m with
  | .ok next n => m.Move i none { n with ip := next }
  | .error e n => m.Move i (some e) n

theorem moves_get {i : Instruction} {m : Machine} {f : Machine → Exec Nat} (h : Moves i (f m) m) :
    Moves i (get >>= f) m := h

theorem moves_of_jumpTarget {i : Instruction} {m : Machine} {f : Nat → Exec Nat}
    (h : ∀ target : Nat, i.value.toInt = target → target ≠ 0 → target < m.program.code.size →
      Moves i (f target) m) :
    Moves i (jumpTarget i >>= f) m := by
  unfold Moves
  rcases jumpTarget_cases i m with ⟨target, run, operand, nonzero, inside⟩ | ⟨e, run⟩
  · rw [bind_of_ok run]
    exact h target operand nonzero inside
  · rw [bind_of_error run]
    exact .fault (.refl m)

/-- An action that stays in the frame, and then goes on to the instruction that it chooses. -/
theorem moves_of_frames {i : Instruction} {m : Machine} {α : Type} {x : Exec α} {next : α → Nat}
    (frames : Frames x)
    (move : ∀ (a : α) (n : Machine), m.Frame n → m.Move i none { n with ip := next a }) :
    Moves i (do
      let a ← x
      return next a) m := by
  unfold Moves
  cases run : x m with
  | error e n =>
    rw [bind_of_error run]
    exact .fault ((frames m).of_error run)
  | ok a n =>
    rw [bind_of_ok run]
    exact move a n ((frames m).of_ok run)

/-- A conditional jump takes its operand from the stack and jumps or does not. -/
theorem moves_branch {i : Instruction} {m : Machine} {target : Nat} {next : Value → Nat}
    (op : i.op.isJump ∧ i.op ≠ .call) (operand : i.value.toInt = target) (nonzero : target ≠ 0)
    (inside : target < m.program.code.size)
    (choice : ∀ v, next v = target ∨ next v = m.ip + 1) :
    Moves i (do
      let v ← pop
      return next v) m := by
  have notRet : i.op ≠ .ret := by
    intro ret
    simp [ret, Op.isJump] at op
  refine moves_of_frames frames_pop fun v n frame => ?_
  rcases choice v with taken | passed
  · simp only [taken]
    exact .jump op frame operand nonzero inside
  · simp only [passed]
    exact .next ⟨op.2, notRet⟩ frame

/-- An instruction that only has an effect goes on to the next one. -/
theorem moves_effect {i : Instruction} (m : Machine) (op : i.op ≠ .call ∧ i.op ≠ .ret) :
    Moves i (do
      effect i
      return m.ip + 1) m :=
  moves_of_frames (frames_effect i) fun _ _ frame => .next op frame

theorem moves_execute (i : Instruction) (m : Machine) : Moves i (execute i) m := by
  unfold execute
  cases op : i.op with
  | call =>
    refine moves_of_jumpTarget (i := i) fun target operand nonzero inside => ?_
    change Moves i (if returnCapacity ≤ m.returns.length then throw .returnStackOverflow
      else do
        modify fun m' => { m' with returns := m.ip :: m'.returns }
        return target) m
    by_cases full : returnCapacity ≤ m.returns.length
    · rw [if_pos full]
      exact .fault (.refl m)
    · rw [if_neg full]
      exact .call op (Nat.not_le.1 full) operand nonzero inside
  | ret =>
    refine moves_get (moves_get ?_)
    cases called : m.returns with
    | nil => exact .fault (.refl m)
    | cons caller returns => exact .ret op called
  | jmp =>
    rw [← bind_pure (jumpTarget i)]
    refine moves_of_jumpTarget (i := i) fun target operand nonzero inside => ?_
    exact .jump (by simp [op, Op.isJump]) (.refl m) operand nonzero inside
  | zjmp =>
    refine moves_of_jumpTarget (i := i) fun target operand nonzero inside => ?_
    exact moves_branch (by simp [op, Op.isJump]) operand nonzero inside fun v => by
      split <;> simp
  | nzjmp =>
    refine moves_of_jumpTarget (i := i) fun target operand nonzero inside => ?_
    exact moves_branch (by simp [op, Op.isJump]) operand nonzero inside fun v => by
      split <;> simp
  | _ => exact moves_effect m (by simp [op])

/-! ## The action of a step -/

theorem bind_get {α : Type} (f : Machine → Exec α) (m : Machine) : (get >>= f) m = f m m := rfl

theorem step_outside {m : Machine} (h : m.program.code[m.ip]? = none) :
    step m = .error .halted m := by
  unfold step
  rw [bind_get, h]
  rfl

theorem step_halted {m : Machine} {i : Instruction} (h : m.program.code[m.ip]? = some i)
    (halt : m.halt.isSome) : step m = .error .halted m := by
  unfold step
  rw [bind_get, h]
  dsimp only
  rw [if_pos halt]
  rfl

theorem step_inside {m : Machine} {i : Instruction} (h : m.program.code[m.ip]? = some i)
    (halt : m.halt = none) :
    step m = (do
      let next ← execute i
      modify fun m => { m with ip := next } : Exec Unit) m := by
  unfold step
  rw [bind_get, h]
  dsimp only
  rw [if_neg (by simp [halt])]

end Exec

/-! ## Steps and runs -/

namespace Machine

/-- A step refuses to go on or is the execution of an instruction. -/
theorem executes_of_step {m n : Machine} {e : Option Fault} (h : m.step = (e, n)) :
    ((m.program.code.size ≤ m.ip ∨ m.halt.isSome) ∧ e = some .halted ∧ n = m) ∨
    ∃ i, m.program.code[m.ip]? = some i ∧ m.halt = none ∧
      ((e = none ∧ ∃ next o, Exec.execute i m = .ok next o ∧ n = { o with ip := next }) ∨
        ∃ f, e = some f ∧ Exec.execute i m = .error f n) := by
  unfold step at h
  cases found : m.program.code[m.ip]? with
  | none =>
    rw [Exec.step_outside found] at h
    cases h
    exact .inl ⟨.inl (by simpa using found), rfl, rfl⟩
  | some i =>
    cases halt : m.halt with
    | some code =>
      rw [Exec.step_halted found (by simp [halt])] at h
      cases h
      exact .inl ⟨.inr rfl, rfl, rfl⟩
    | none =>
      rw [Exec.step_inside found halt] at h
      refine .inr ⟨i, rfl, rfl, ?_⟩
      cases run : Exec.execute i m with
      | error f o =>
        rw [Exec.bind_of_error run] at h
        cases h
        exact .inr ⟨f, rfl, rfl⟩
      | ok next o =>
        rw [Exec.bind_of_ok run] at h
        cases h
        exact .inl ⟨rfl, next, o, rfl, rfl⟩

/-- All that a step can do: refuse to go on, or do what an instruction of the program does. -/
theorem step_cases {m n : Machine} {e : Option Fault} (h : m.step = (e, n)) :
    ((m.program.code.size ≤ m.ip ∨ m.halt.isSome) ∧ e = some .halted ∧ n = m) ∨
    ∃ i, m.program.code[m.ip]? = some i ∧ m.halt = none ∧ m.Move i e n := by
  obtain stopped | ⟨i, found, halt, outcome⟩ := executes_of_step h
  · exact .inl stopped
  · refine .inr ⟨i, found, halt, ?_⟩
    have moves := Exec.moves_execute i m
    unfold Exec.Moves at moves
    obtain ⟨rfl, next, o, run, rfl⟩ | ⟨f, rfl, run⟩ := outcome
    · rw [run] at moves
      exact moves
    · rw [run] at moves
      exact moves

/-- A step leaves the program as it is. -/
theorem program_of_step {m n : Machine} {e : Option Fault} (h : m.step = (e, n)) :
    n.program = m.program := by
  rcases step_cases h with ⟨-, -, rfl⟩ | ⟨i, -, -, move⟩
  · rfl
  · cases move with
    | fault frame | next _ frame | jump _ frame => exact frame.program
    | call | ret => rfl

/-- The runs of a machine, with the indices of the instructions that have succeeded, the last one
first. A run may go on after a fault, and may add to the native table between two steps. -/
inductive Runs : Machine → List Nat → Machine → Prop where
  | refl (m : Machine) : Runs m [] m
  | succeed {m n o : Machine} {done : List Nat} : Runs m done n → n.step = (none, o) →
      Runs m (n.ip :: done) o
  | fail {m n o : Machine} {done : List Nat} {e : Fault} : Runs m done n →
      n.step = (some e, o) → Runs m done o
  | add {m n o : Machine} {done : List Nat} {f : Native} {index : Nat} : Runs m done n →
      n.addNative f = .ok (index, o) → Runs m done o

/-- The machine after a number of steps, whatever they give. -/
def after (m : Machine) : Nat → Machine
  | 0 => m
  | count + 1 => (m.after count).step.2

end Machine

end StackLang
