import StackLang.Proofs.Machine.Cells

/-!
# Instructions with two operands

An instruction that computes takes its two operands from the stack, the upper one first, and
pushes what a function makes of them; nothing else of the machine changes but the index of the
next instruction. `Op.binary?` is the table of these functions and `Machine.answers_of_binary` the one
lemma about all of them. So a statement about a computation is a statement about steps of a
machine, `Machine.Answers`, and a proof of it is about the function alone.
-/

namespace StackLang

open Bytecode

/-- The instruction of a typed operation. -/
def Arith.op : Arith → Op
  | .add => .add
  | .sub => .sub
  | .mul => .mul
  | .div => .div
  | .compare .equal => .cmpe
  | .compare .notEqual => .cmpne
  | .compare .greater => .cmpg
  | .compare .less => .cmpl
  | .compare .greaterEqual => .cmpge
  | .compare .lessEqual => .cmple

/-- The instruction of an operation on the single format patterns of two words. -/
def FloatArith.op : FloatArith → Op
  | .add => .addF
  | .sub => .subF
  | .mul => .mulF
  | .div => .divF
  | .remainder => .modF

/-- What an instruction with two operands makes of them, the deeper one first. -/
def Bytecode.Op.binary? : Op → Option (Value → Value → Except Fault Value)
  | .add => some (Arith.add.apply .add)
  | .sub => some (Arith.sub.apply .sub)
  | .mul => some (Arith.mul.apply .mul)
  | .div => some (Arith.div.apply .div)
  | .cmpe => some ((Arith.compare .equal).apply .cmpe)
  | .cmpne => some ((Arith.compare .notEqual).apply .cmpne)
  | .cmpg => some ((Arith.compare .greater).apply .cmpg)
  | .cmpl => some ((Arith.compare .less).apply .cmpl)
  | .cmpge => some ((Arith.compare .greaterEqual).apply .cmpge)
  | .cmple => some ((Arith.compare .lessEqual).apply .cmple)
  | .mod => some Logic.remainder.apply
  | .and => some Logic.both.apply
  | .or => some Logic.either.apply
  | .addF => some FloatArith.add.apply
  | .subF => some FloatArith.sub.apply
  | .mulF => some FloatArith.mul.apply
  | .divF => some FloatArith.div.apply
  | .modF => some FloatArith.remainder.apply
  | _ => none

theorem Arith.binary?_op (f : Arith) : f.op.binary? = some (f.apply f.op) := by
  cases f with
  | compare c => cases c <;> rfl
  | _ => rfl

theorem FloatArith.binary?_op (f : FloatArith) : f.op.binary? = some f.apply := by
  cases f <;> rfl

variable {f : Value → Value → Except Fault Value} {a b : Value} {rest : List Value}

/-- An instruction that computes does not choose the next one. -/
theorem Bytecode.Op.isJump_of_binary {op : Op} (h : op.binary? = some f) :
    op.isJump = false ∧ op ≠ .ret := by
  cases op
  case call | jmp | zjmp | nzjmp | ret => cases h
  all_goals exact ⟨rfl, nofun⟩

namespace Exec

theorem effect_of_binary {i : Instruction} (h : i.op.binary? = some f) : effect i = binary f := by
  unfold effect
  cases op : i.op
  all_goals
    rw [op] at h
    cases h
  all_goals rfl

theorem run_binary {m : Machine} (live : m.stack.live = b :: a :: rest) :
    binary f m =
      match f a b with
      | .ok v => .ok () { m with stack := ⟨v :: rest, b :: m.stack.free⟩ }
      | .error e => .error e { m with stack := ⟨rest, a :: b :: m.stack.free⟩ } := by
  have upper : pop m = .ok b { m with stack := ⟨a :: rest, b :: m.stack.free⟩ } :=
    pop_of_live live
  have lower : pop { m with stack := ⟨a :: rest, b :: m.stack.free⟩ } =
      .ok a { m with stack := ⟨rest, a :: b :: m.stack.free⟩ } := rfl
  refine (bind_of_ok upper).trans ((bind_of_ok lower).trans ?_)
  cases f a b <;> rfl

end Exec

namespace Machine

/-- The outcome of a step that computes, given what is computed: the result stands where the
operands `a` and `b` stood, or they are gone and the index stays. -/
def answer (m : Machine) (a b : Value) (rest : List Value) :
    Except Fault Value → Option Fault × Machine
  | .ok v => (none, { m with stack := ⟨v :: rest, b :: m.stack.free⟩, ip := m.ip + 1 })
  | .error e => (some e, { m with stack := ⟨rest, a :: b :: m.stack.free⟩ })

theorem answer_injective (m : Machine) (a b : Value) (rest : List Value) :
    Function.Injective (m.answer a b rest) := by
  intro r r' h
  cases r <;> cases r' <;> simp_all [answer]

/-- Wherever the instruction `op` finds the operands `a` and `b` on the stack, `b` on top, the
step has the outcome `r`. -/
def Answers (op : Op) (a b : Value) (r : Except Fault Value) : Prop :=
  ∀ (m : Machine) (i : Instruction) (rest : List Value), m.next? = some i → i.op = op →
    m.halt = none → m.stack.live = b :: a :: rest → m.step = m.answer a b rest r

variable {op : Op} {r : Except Fault Value}

theorem answers_of_binary (h : op.binary? = some f) : Answers op a b (f a b) := by
  intro m i rest found same halt live
  have binary : i.op.binary? = some f := same ▸ h
  obtain ⟨jump, ret⟩ := Op.isJump_of_binary binary
  have acted := Exec.run_binary (f := f) live
  rw [← Exec.effect_of_binary binary] at acted
  rw [step_of_effect found halt jump ret, acted]
  cases f a b <;> rfl

/-- There is a machine with any two operands in front of any instruction. -/
theorem exists_operands (op : Op) (a b : Value) :
    ∃ (m : Machine) (i : Instruction), m.next? = some i ∧ i.op = op ∧ m.halt = none ∧
      m.stack.live = [b, a] := by
  refine ⟨{ start { code := #[{ op }] } .none with stack := ⟨[b, a], []⟩ }, { op }, ?_⟩
  exact ⟨rfl, rfl, rfl, rfl⟩

/-- What the function of an instruction gives is the outcome of its steps, and no other. -/
theorem answers_iff (h : op.binary? = some f) : Answers op a b r ↔ f a b = r := by
  constructor
  · intro answers
    obtain ⟨m, i, found, same, halt, live⟩ := exists_operands op a b
    apply answer_injective m a b []
    rw [← answers m i [] found same halt live, answers_of_binary h m i [] found same halt live]
  · rintro rfl
    exact answers_of_binary h

theorem answers_arith_iff (f : Arith) : Answers f.op a b r ↔ f.apply f.op a b = r :=
  answers_iff f.binary?_op

theorem answers_floatArith_iff (f : FloatArith) : Answers f.op a b r ↔ f.apply a b = r :=
  answers_iff f.binary?_op

end Machine

end StackLang
