import StackLang.Proofs.Machine.Bounds
import StackLang.Proofs.Machine.Raised

/-!
# A routine does not see the stack of its caller

What a machine does on a stack, it does on the same stack with any values below, and leaves these
values as they are: the same instructions, the same output, the same state but for the values
below. The conditions are those without which it is not so. The instructions must not ask how deep
the stack is and must not call a function that may look to its bottom; no address of a slot may
come to lie on the stack, where an instruction could follow it; and the raised stack must fit into
its slots. Addresses in registers and in memory do no harm while they stay there. The condition is
on the whole run, since a program can also make an address out of a number.
-/

namespace StackLang

open Bytecode

/-- Whether an instruction reaches the operand stack from its top only: it is not `ss` or `ref`,
and it calls no native function but the two that are built in. -/
def Bytecode.Instruction.isLocal (i : Instruction) : Bool :=
  match i.op with
  | .ss | .ref => false
  | .native => i.value.toInt = 0 || i.value.toInt = 1
  | _ => true

theorem Bytecode.Instruction.isLocal_iff (i : Instruction) :
    i.isLocal ↔ i.op ≠ .ss ∧ i.op ≠ .ref ∧
      (i.op = .native → i.value.toInt = 0 ∨ i.value.toInt = 1) := by
  unfold isLocal
  cases i.op <;> simp

namespace Machine

/-- The instruction that the next step executes. -/
def next? (m : Machine) : Option Instruction := m.program.code[m.ip]?

/-- The built-in functions stay where they are. -/
theorem hasBuiltins_of_runs {m n : Machine} {done : List Nat} (h : m.HasBuiltins)
    (run : m.Runs done n) : n.HasBuiltins :=
  ⟨native_of_runs run h.1, native_of_runs run h.2⟩

theorem hasBuiltins_start (p : Program) (loader : Loader) : (start p loader).HasBuiltins :=
  ⟨rfl, rfl⟩

end Machine

/-! ## One step -/

namespace Exec

variable {below : List Value}

theorem mirrors_jumpTarget (i : Instruction) : Mirrors below Eq (jumpTarget i) (jumpTarget i) := by
  unfold jumpTarget
  dsimp only
  split
  · exact mirrors_throw
  refine mirrors_bind mirrors_get ?_
  rintro m n ⟨⟨t, -, rfl⟩, -⟩
  exact mirrors_ite mirrors_throw (mirrors_pure rfl)

theorem completes_execute {i : Instruction} (stays : i.isLocal) :
    Completes below (execute i) (execute i) := by
  obtain ⟨depth, slot, builtin⟩ := i.isLocal_iff.1 stays
  refine completes_bind mirrors_get ?_
  rintro m n ⟨⟨t, -, rfl⟩, -⟩
  dsimp only
  have acts : Completes below (effect i) (effect i) := completes_effect depth slot builtin
  cases op : i.op with
  | call =>
    refine completes_bind (mirrors_jumpTarget i) ?_
    rintro target _ rfl
    refine completes_bind mirrors_get ?_
    rintro k l ⟨⟨u, -, rfl⟩, -⟩
    refine completes_ite completes_throw (completes_bind_pure (completes_modify ?_) target)
    rintro k l ⟨u, stack, rfl⟩
    exact ⟨u, stack, rfl⟩
  | ret =>
    intro k l raised aloof a k' run room
    obtain ⟨u, stack, rfl⟩ := raised
    dsimp only at run ⊢
    rw [bind_get] at run ⊢
    cases called : k.returns with
    | nil =>
      rw [called] at run
      cases run
    | cons caller returns =>
      rw [called] at run
      cases run
      exact ⟨_, rfl, u, stack, rfl⟩
  | jmp => exact (mirrors_jumpTarget i).completes
  | zjmp | nzjmp =>
    refine completes_bind (mirrors_jumpTarget i) ?_
    rintro target _ rfl
    refine completes_bind mirrors_pop ?_
    rintro v _ ⟨rfl, -⟩
    exact completes_pure _
  | _ => exact completes_bind_pure acts (m.ip + 1)

end Exec

namespace Machine

variable {below : List Value} {m n m' : Machine}

/-- A step that succeeds executes the next instruction. -/
theorem exists_execute_of_step (h : m.step = (none, m')) :
    ∃ i next o, m.next? = some i ∧ m.halt = none ∧ Exec.execute i m = .ok next o ∧
      m' = { o with ip := next } := by
  obtain ⟨-, refused, -⟩ | ⟨i, found, halt, ⟨-, next, o, run, same⟩ | ⟨f, failed, -⟩⟩ :=
    executes_of_step h
  · cases refused
  · exact ⟨i, next, o, found, halt, run, same⟩
  · cases failed

theorem step_of_execute {i : Instruction} {next : Nat} {o : Machine} (found : m.next? = some i)
    (halt : m.halt = none) (run : Exec.execute i m = .ok next o) :
    m.step = (none, { o with ip := next }) := by
  unfold step
  rw [Exec.step_inside found halt, Exec.bind_of_ok run]
  rfl

/-- A step that succeeds does so on the raised machine too. -/
theorem Raised.step (h : m.Raised below n) (aloof : m.Aloof)
    (stays : ∀ i ∈ m.next?, i.isLocal) (run : m.step = (none, m'))
    (room : below.length + m'.stack.size ≤ stackCapacity) :
    ∃ n', n.step = (none, n') ∧ m'.Raised below n' := by
  obtain ⟨i, next, o, found, halt, ran, rfl⟩ := exists_execute_of_step run
  obtain ⟨o', ranRaised, u, stack, rfl⟩ :=
    Exec.completes_execute (stays i found) h aloof ran room
  obtain ⟨t, -, rfl⟩ := h
  exact ⟨_, step_of_execute found halt ranRaised, u, stack, rfl⟩

theorem Raised.next? (h : m.Raised below n) : n.next? = m.next? := by
  obtain ⟨t, -, rfl⟩ := h
  rfl

/-! ## Runs -/

theorem hasBuiltins_step (h : m.HasBuiltins) {e : Option Fault} (run : m.step = (e, n)) :
    n.HasBuiltins := by
  cases e with
  | none => exact hasBuiltins_of_runs h (.succeed (.refl m) run)
  | some e => exact hasBuiltins_of_runs h (.fail (.refl m) run)

theorem hasBuiltins_after (h : m.HasBuiltins) (count : Nat) : (m.after count).HasBuiltins := by
  induction count with
  | zero => exact h
  | succ count ih => exact hasBuiltins_step (e := (m.after count).step.1) ih rfl

/-- **A routine does not see the stack of its caller.** Let `n` be the machine `m` with any values
below its operand stack, and let `count` steps from `m` succeed, each with a local instruction and
with no address of a slot on the stack, so that the stack with the values below never has more
than its slots. Then as many steps from `n` succeed and execute the same instructions, and after
each of them the machines are the same but for the values below. -/
theorem raised_run {count : Nat} (raised : m.Raised below n) (builtins : m.HasBuiltins)
    (succeeds : ∀ k < count, (m.after k).step.1 = none)
    (stays : ∀ k < count, ∀ i ∈ (m.after k).next?, i.isLocal)
    (outside : ∀ k < count, ∀ v ∈ (m.after k).stack.live, IsOutside v.word.toNat)
    (room : ∀ k ≤ count, below.length + (m.after k).stack.size ≤ stackCapacity) :
    (∀ k < count, (n.after k).step.1 = none ∧ (n.after k).next? = (m.after k).next?) ∧
      ∀ k ≤ count, (m.after k).Raised below (n.after k) := by
  have one (k : Nat) (lt : k < count) (h : (m.after k).Raised below (n.after k)) :
      (n.after k).step.1 = none ∧ (m.after (k + 1)).Raised below (n.after (k + 1)) := by
    have aloof : (m.after k).Aloof := ⟨outside k lt, hasBuiltins_after builtins k⟩
    have run : (m.after k).step = (none, m.after (k + 1)) := Prod.ext (succeeds k lt) rfl
    obtain ⟨n', ran, raised'⟩ := h.step aloof (stays k lt) run (room (k + 1) lt)
    have same : n' = n.after (k + 1) := by rw [after, ran]
    rw [ran, ← same]
    exact ⟨rfl, raised'⟩
  have each : ∀ k ≤ count, (m.after k).Raised below (n.after k) := by
    intro k
    induction k with
    | zero => exact fun _ => raised
    | succ k ih => exact fun le => (one k le (ih (by omega))).2
  exact ⟨fun k lt => ⟨(one k lt (each k (by omega))).1, (each k (by omega)).next?⟩, each⟩

/-- A routine that writes a text and keeps its address. -/
def greeter : Program where
  strings := [[0x68, 0x69]]
  code := #[{ op := .pushStr }, { op := .push }, { op := .indup },
    { op := .push, value := .ofNat 1 }, { op := .native }]

/-- The machine in front of the routine. -/
def greeting : Machine := start greeter .none

/-- The same machine with the values of a caller on its stack. -/
def called : Machine :=
  { greeting with stack := ⟨[.int 7, .char 65], List.replicate 1022 (.int 0)⟩ }

theorem raised_called : greeting.Raised [.char 65, .int 7] called := by
  have slots : greeting.stack.capacity = stackCapacity := Stack.capacity_empty stackCapacity
  have slotsRaised : called.stack.capacity = stackCapacity := by
    simp only [called, Stack.capacity, List.length_replicate]
    rfl
  exact ⟨called.stack, ⟨rfl, slots, slotsRaised⟩, rfl⟩

theorem raised_run_greeting :
    greeting.Raised [.char 65, .int 7] called ∧ greeting.HasBuiltins ∧
      (∀ k < 5, (greeting.after k).step.1 = none) ∧
      (∀ k < 5, ∀ i ∈ (greeting.after k).next?, i.isLocal) ∧
      (∀ k < 5, ∀ v ∈ (greeting.after k).stack.live, IsOutside v.word.toNat) ∧
      (∀ k ≤ 5, 2 + (greeting.after k).stack.size ≤ stackCapacity) ∧
      (greeting.after 5).out = #[0x68, 0x69] ∧
      (∀ k < 5, (called.after k).step.1 = none) ∧
      (greeting.after 5).Raised [.char 65, .int 7] (called.after 5) := by
  have builtins := hasBuiltins_start greeter .none
  have succeeds : ∀ k < 5, (greeting.after k).step.1 = none := by decide +kernel
  have stays : ∀ k < 5, ∀ i ∈ (greeting.after k).next?, i.isLocal := by decide +kernel
  have outside : ∀ k < 5, ∀ v ∈ (greeting.after k).stack.live, IsOutside v.word.toNat := by
    decide +kernel
  have room : ∀ k ≤ 5, 2 + (greeting.after k).stack.size ≤ stackCapacity := by decide +kernel
  have out : (greeting.after 5).out = #[0x68, 0x69] := by decide +kernel
  have run := raised_run raised_called builtins succeeds stays outside room
  exact ⟨raised_called, builtins, succeeds, stays, outside, room, out,
    fun k lt => (run.1 k lt).1, run.2 5 (Nat.le_refl 5)⟩

end Machine

end StackLang
