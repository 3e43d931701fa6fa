import StackLang.Proofs.Machine.Runs

/-!
# Faults of the program itself

Some faults do not depend on the data that a machine works on: the target of a jump that is no
instruction, a string that is not in the table, a register that there is not, an instruction that
can not be executed. `Program.flaw?` reads them off an instruction, and a step of a machine fails
with such a fault only if the instruction has it. A native function that fails at will could give
any fault, so the machines in question are those without one.
-/

namespace StackLang

open Bytecode

/-- Whether the program alone decides about a fault. -/
def Fault.isStatic : Fault → Bool
  | .jumpToZero | .jumpOutOfBounds _ _ | .unknownString _ | .invalidRegister _
  | .notExecutable _ => true
  | _ => false

/-- The string that an instruction indexes. -/
def Bytecode.Program.string? (p : Program) (i : Instruction) : Option (List UInt8) :=
  if 0 ≤ i.value.toInt then p.strings[i.value.toInt.toNat]? else none

/-- The fault that an instruction has in the program, whatever the data. -/
def Bytecode.Program.flaw? (p : Program) (i : Instruction) : Option Fault :=
  match i.op with
  | .call | .jmp | .zjmp | .nzjmp =>
    if i.value.toInt = 0 then some .jumpToZero
    else if i.value.toInt < 0 ∨ (p.code.size : Int) ≤ i.value.toInt then
      some (.jumpOutOfBounds i.op i.value.toInt)
    else none
  | .pushStr =>
    if (if 0 ≤ i.value.toInt then p.strings[i.value.toInt.toNat]? else none).isNone then
      some (.unknownString i.value.toInt)
    else none
  | .push =>
    if i.tag = .reg ∧ 16 ≤ i.register.toNat then some (.invalidRegister i.register.toNat) else none
  | .mov => if 16 ≤ i.register.toNat then some (.invalidRegister i.register.toNat) else none
  | .entrypoint => some (.notExecutable .entrypoint)
  | _ => none

/-- The target of a jump has to be an instruction, and not the first one. -/
theorem Bytecode.Program.flaw?_of_isJump (p : Program) {i : Instruction} (h : i.op.isJump) :
    p.flaw? i =
      if i.value.toInt = 0 then some .jumpToZero
      else if i.value.toInt < 0 ∨ (p.code.size : Int) ≤ i.value.toInt then
        some (.jumpOutOfBounds i.op i.value.toInt)
      else none := by
  unfold Bytecode.Program.flaw?
  cases op : i.op <;> simp_all [Op.isJump]

/-- No instruction but a jump is at fault for a target. -/
theorem Bytecode.Program.isJump_of_flaw {p : Program} {i : Instruction} {e : Fault}
    (h : p.flaw? i = some e) (target : e = .jumpToZero ∨ ∃ op t, e = .jumpOutOfBounds op t) :
    i.op.isJump := by
  -- Of the other instructions each has a fault of another kind or none.
  have other : i.op.isJump = false → p.flaw? i ≠ some e := by
    unfold Bytecode.Program.flaw?
    obtain rfl | ⟨op, t, rfl⟩ := target
    all_goals cases i.op <;> simp [Op.isJump]
  cases known : i.op.isJump with
  | true => rfl
  | false => exact absurd h (other known)

/-- Whether a native function fails at most for the operand stack and for what it is given. -/
def Native.isTame : Native → Bool
  | .failWith _ => false
  | _ => true

/-- A machine of the program `p` whose native functions do not fail at will. -/
structure Machine.Tame (p : Program) (m : Machine) : Prop where
  program : m.program = p
  natives : ∀ f ∈ m.natives.toList, f.isTame
  pending : m.pending = none

namespace Machine.Tame

variable {p : Program} {m : Machine}

theorem start (p : Program) (loader : Loader) : Tame p (Machine.start p loader) where
  program := rfl
  natives := by simp [Machine.start, Native.isTame]
  pending := rfl

/-- The program, the native table and a pending fault are all that counts. -/
theorem of_data (h : Tame p m) (stack : Stack) (registers : Vector Value 16) (memory : Memory)
    (halt : Option Int) (out err : Array UInt8) :
    Tame p { m with stack, registers, memory, halt, out, err } :=
  ⟨h.program, h.natives, h.pending⟩

theorem setByte (h : Tame p m) (address : Nat) (b : UInt8) : Tame p (m.setByte address b) := by
  unfold Machine.setByte
  split
  · exact h.of_data _ _ _ _ _ _
  · exact h.of_data _ _ _ _ _ _

theorem setBytes (h : Tame p m) (address : Nat) (bytes : List UInt8) :
    Tame p (m.setBytes address bytes) := by
  induction bytes generalizing m address with
  | nil => exact h
  | cons b rest ih => exact ih (h.setByte address b) _

theorem addNative (h : Tame p m) {f : Native} (tame : f.isTame) {i : Nat} {n : Machine}
    (added : m.addNative f = .ok (i, n)) : Tame p n := by
  unfold Machine.addNative at added
  split at added
  · cases added
  cases added
  refine ⟨h.program, fun g mem => ?_, h.pending⟩
  rw [Array.toList_push, List.mem_append, List.mem_singleton] at mem
  obtain old | rfl := mem
  · exact h.natives g old
  · exact tame

end Machine.Tame

/-! ## What can go wrong with data -/

/-- The result is a fault of the data if it is one at all. -/
def IsDynamic {α : Type} (x : Except Fault α) : Prop := ∀ e, x = .error e → e.isStatic = false

variable {α β : Type}

theorem isDynamic_ok (a : α) : IsDynamic (.ok a) := by
  intro e h
  cases h

theorem isDynamic_error {e : Fault} (h : e.isStatic = false) :
    IsDynamic (.error e : Except Fault α) := by
  intro e' h'
  cases h'
  exact h

theorem isDynamic_ite {c : Prop} [Decidable c] {x y : Except Fault α} (hx : IsDynamic x)
    (hy : IsDynamic y) : IsDynamic (if c then x else y) := by
  split
  · exact hx
  · exact hy

theorem Stack.isDynamic_push (s : Stack) (v : Value) : IsDynamic (s.push v) := by
  intro e h
  obtain ⟨-, rfl⟩ := Stack.push_eq_error_iff.1 h
  rfl

theorem Stack.isDynamic_pop (s : Stack) : IsDynamic s.pop := by
  intro e h
  obtain ⟨-, rfl⟩ := Stack.pop_eq_error_iff.1 h
  rfl

theorem Stack.isDynamic_retag (s : Stack) (tag : Tag) : IsDynamic (s.retag tag) := by
  unfold Stack.retag
  split
  · exact isDynamic_error rfl
  · exact isDynamic_ok _

theorem Stack.isDynamic_swap (s : Stack) (i j : Nat) : IsDynamic (s.swap i j) := by
  unfold Stack.swap
  split
  · exact isDynamic_ok _
  · exact isDynamic_error rfl

theorem isStatic_or {pending : Option Fault} {e' : Fault}
    (h : ∀ e, pending = some e → e.isStatic = false) (h' : e'.isStatic = false) :
    ∀ e, pending.or (some e') = some e → e.isStatic = false := by
  intro e found
  cases pending with
  | none =>
    cases found
    exact h'
  | some earlier => exact h e found

/-- A foreign function fails for the stack. -/
theorem Interaction.isStatic_run (f : Interaction) (s : Stack) {pending : Option Fault}
    (h : ∀ e, pending = some e → e.isStatic = false) :
    ∀ e, (f.run s pending).2 = some e → e.isStatic = false := by
  induction f generalizing s pending with
  | done => exact h
  | pop next ih =>
    rw [run]
    split
    · exact ih _ _ h
    · rename_i e failed
      exact ih _ _ (isStatic_or h (s.isDynamic_pop e failed))
  | push v next ih =>
    rw [run]
    split
    · exact ih _ h
    · rename_i e failed
      exact ih _ (isStatic_or h (s.isDynamic_push v e failed))

theorem Memory.isDynamic_allocBytes (m : Memory) (bytes : Array UInt8) :
    IsDynamic (m.allocBytes bytes) :=
  isDynamic_ite (isDynamic_ok _) (isDynamic_ite (isDynamic_error rfl) (isDynamic_ok _))

theorem Memory.isDynamic_alloc (m : Memory) (size : Nat) : IsDynamic (m.alloc size) :=
  isDynamic_ite (isDynamic_error rfl) (m.isDynamic_allocBytes _)

theorem Memory.isDynamic_dealloc (m : Memory) (address : Nat) :
    IsDynamic (m.dealloc address) := by
  unfold Memory.dealloc
  split
  · exact isDynamic_error rfl
  · exact isDynamic_ok _

theorem Machine.isDynamic_addNative (m : Machine) (f : Native) : IsDynamic (m.addNative f) :=
  isDynamic_ite (isDynamic_error rfl) (isDynamic_ok _)

theorem Arith.isDynamic_apply (f : Arith) (op : Op) (a b : Value) :
    IsDynamic (f.apply op a b) := by
  have unsigned (width : Nat) (tag : Tag) (m n : Nat) : IsDynamic (f.unsigned width tag m n) := by
    cases f with
    | div => exact isDynamic_ite (isDynamic_error rfl) (isDynamic_ok _)
    | _ => exact isDynamic_ok _
  have signed (m n : Int) : IsDynamic (f.signed m n) := by
    cases f with
    | div => exact isDynamic_ite (isDynamic_error rfl) (isDynamic_ok _)
    | _ => exact isDynamic_ok _
  refine isDynamic_ite (isDynamic_error rfl) ?_
  split
  · exact unsigned _ _ _ _
  · exact unsigned _ _ _ _
  · exact unsigned _ _ _ _
  · exact unsigned _ _ _ _
  · exact unsigned _ _ _ _
  · exact unsigned _ _ _ _
  · exact signed _ _
  · exact isDynamic_ok _
  · exact isDynamic_ok _
  · exact isDynamic_error rfl
  · exact isDynamic_error rfl

theorem Logic.isDynamic_apply (f : Logic) (a b : Value) : IsDynamic (f.apply a b) := by
  cases f with
  | remainder => exact isDynamic_ite (isDynamic_error rfl) (isDynamic_ok _)
  | _ => exact isDynamic_ok _

theorem FloatArith.isDynamic_apply (f : FloatArith) (a b : Value) : IsDynamic (f.apply a b) := by
  cases f with
  | div | remainder => exact isDynamic_ite (isDynamic_error rfl) (isDynamic_ok _)
  | _ => exact isDynamic_ok _

/-! ## Actions -/

namespace Exec

variable {p : Program} {flaw : Option Fault}

/-- On `m` the action leaves a tame machine of `p`, and a fault of the program that it fails with
is `flaw`. -/
def BlamesAt (p : Program) (flaw : Option Fault) (x : Exec α) (m : Machine) : Prop :=
  match x m with
  | .ok _ n => n.Tame p
  | .error e n => n.Tame p ∧ (e.isStatic → flaw = some e)

/-- On tame machines of `p` the action leaves them tame and fails with `flaw` or for the data. -/
def Blames (p : Program) (flaw : Option Fault) (x : Exec α) : Prop :=
  ∀ ⦃m : Machine⦄, m.Tame p → BlamesAt p flaw x m

theorem blames_bind {x : Exec α} {f : α → Exec β} (hx : Blames p flaw x)
    (hf : ∀ a, Blames p flaw (f a)) : Blames p flaw (x >>= f) := by
  intro m tame
  have first := hx tame
  unfold BlamesAt at first ⊢
  cases run : x m with
  | error e n =>
    rw [bind_of_error run]
    rwa [run] at first
  | ok a n =>
    rw [bind_of_ok run]
    rw [run] at first
    exact hf a first

theorem blames_pure (a : α) : Blames p flaw (pure a) := fun _ tame => tame

theorem blames_throw_static {e : Fault} (h : flaw = some e) : Blames p flaw (throw e : Exec α) :=
  fun _ tame => ⟨tame, fun _ => h⟩

theorem blames_throw {e : Fault} (h : e.isStatic = false) : Blames p flaw (throw e : Exec α) :=
  fun _ tame => ⟨tame, fun static => absurd static (by simp [h])⟩

theorem blames_get_bind {f : Machine → Exec α}
    (h : ∀ m : Machine, m.Tame p → BlamesAt p flaw (f m) m) : Blames p flaw (get >>= f) :=
  fun m tame => h m tame

theorem blames_get : Blames p flaw (get : Exec Machine) := fun _ tame => tame

theorem blames_modify {f : Machine → Machine} (h : ∀ m : Machine, m.Tame p → (f m).Tame p) :
    Blames p flaw (modify f : Exec Unit) :=
  fun m tame => h m tame

theorem blames_ite {c : Prop} [Decidable c] {x y : Exec α} (hx : Blames p flaw x)
    (hy : Blames p flaw y) : Blames p flaw (if c then x else y) := by
  split
  · exact hx
  · exact hy

/-! ### Actions on the operand stack -/

theorem blames_push (v : Value) : Blames p flaw (push v) := by
  refine blames_get_bind fun m tame => ?_
  split
  · exact tame.of_data _ _ _ _ _ _
  · rename_i e failed
    exact blames_throw (m.stack.isDynamic_push v e failed) tame

theorem blames_pop : Blames p flaw pop := by
  refine blames_get_bind fun m tame => ?_
  split
  · exact tame.of_data _ _ _ _ _ _
  · rename_i e failed
    exact blames_throw (m.stack.isDynamic_pop e failed) tame

theorem blames_top : Blames p flaw top := by
  refine blames_get_bind fun m tame => ?_
  split
  · exact tame
  · exact blames_throw rfl tame

theorem blames_retag (tag : Tag) : Blames p flaw (retag tag) := by
  refine blames_get_bind fun m tame => ?_
  split
  · exact tame.of_data _ _ _ _ _ _
  · rename_i e failed
    exact blames_throw (m.stack.isDynamic_retag tag e failed) tame

theorem blames_swap (i j : Nat) : Blames p flaw (swap i j) := by
  refine blames_get_bind fun m tame => ?_
  split
  · exact tame.of_data _ _ _ _ _ _
  · rename_i e failed
    exact blames_throw (m.stack.isDynamic_swap i j e failed) tame

theorem blames_popTyped (op : Op) (expected : Tag) : Blames p flaw (popTyped op expected) :=
  blames_bind blames_pop fun _ => blames_ite (blames_pure _) (blames_throw rfl)

theorem blames_popAddress (op : Op) : Blames p flaw (popAddress op) :=
  blames_bind (blames_popTyped _ _) fun _ => blames_ite (blames_throw rfl) (blames_pure _)

theorem blames_popText (op : Op) : Blames p flaw (popText op) :=
  blames_bind (blames_popAddress _) fun _ => blames_bind blames_get fun _ => blames_pure _

theorem blames_popIndex : Blames p flaw popIndex :=
  blames_bind blames_pop fun _ => blames_bind blames_get fun _ =>
    blames_ite (blames_throw rfl) (blames_pure _)

theorem blames_byteCount (size : Value) : Blames p flaw (byteCount size) :=
  blames_ite (blames_throw rfl) (blames_ite (blames_throw rfl) (blames_pure _))

theorem blames_binary {f : Value → Value → Except Fault Value} (h : ∀ a b, IsDynamic (f a b)) :
    Blames p flaw (binary f) := by
  refine blames_bind blames_pop fun b => blames_bind blames_pop fun a => ?_
  split
  · exact blames_push _
  · rename_i e failed
    exact blames_throw (h a b e failed)

theorem blames_unary (f : Value → Value) : Blames p flaw (unary f) :=
  blames_bind blames_pop fun _ => blames_push _

/-! ### Actions on memory and registers -/

theorem blames_pushCell {made : Memory → Except Fault (Nat × Memory)}
    (h : ∀ memory, IsDynamic (made memory)) : Blames p flaw (pushCell made) := by
  refine blames_get_bind fun m tame => ?_
  split
  · rename_i address memory _
    exact blames_push _ (tame.of_data _ _ memory _ _ _)
  · rename_i e failed
    exact blames_throw (h m.memory e failed) tame

theorem blames_register {i : Instruction}
    (h : 16 ≤ i.register.toNat → flaw = some (.invalidRegister i.register.toNat)) :
    Blames p flaw (register i) := by
  unfold register
  split
  · exact blames_pure _
  · rename_i outside
    exact blames_throw_static (h (Nat.not_lt.1 outside))

theorem blames_pushOperand {i : Instruction} (op : i.op = .push) :
    Blames p (p.flaw? i) (pushOperand i) := by
  unfold pushOperand
  split
  · rename_i tag
    refine blames_bind (blames_register fun outside => ?_) fun r =>
      blames_bind blames_get fun _ => blames_push _
    simp [Program.flaw?, op, tag, outside]
  · exact blames_push _

theorem blames_pushString {i : Instruction} (op : i.op = .pushStr) :
    Blames p (p.flaw? i) (pushString i) := by
  refine blames_get_bind fun m tame => ?_
  obtain rfl := tame.program
  dsimp only
  generalize found : (if 0 ≤ i.value.toInt then m.program.strings[i.value.toInt.toNat]? else none) =
    text
  cases text with
  | none => exact blames_throw_static (by simp [Program.flaw?, op, found]) tame
  | some text => exact blames_pushCell (fun memory => memory.isDynamic_allocBytes _) tame

theorem blames_load {i : Instruction} (op : i.op = .mov) : Blames p (p.flaw? i) (load i) := by
  have known : 16 ≤ i.register.toNat →
      p.flaw? i = some (.invalidRegister i.register.toNat) := fun outside => by
    simp [Program.flaw?, op, outside]
  refine blames_bind (blames_register known) fun r => ?_
  have stored (v : Value) :
      Blames p (p.flaw? i) (modify fun m => { m with registers := m.registers.set r v }) :=
    blames_modify fun m tame => tame.of_data _ _ _ _ _ _
  split
  · exact blames_bind blames_top stored
  · exact blames_bind (blames_pure _) stored

theorem blames_reference : Blames p flaw reference :=
  blames_bind blames_get fun _ => blames_ite (blames_throw rfl) (blames_push _)

theorem blames_dereference : Blames p flaw dereference := by
  refine blames_bind blames_top fun v => blames_ite (blames_throw rfl) ?_
  refine blames_bind blames_get fun m => ?_
  dsimp only
  split
  · exact blames_push _
  · exact blames_throw rfl

theorem blames_allocate : Blames p flaw allocate :=
  blames_bind (blames_popTyped _ _) fun _ =>
    blames_ite (blames_throw rfl) (blames_pushCell fun memory => memory.isDynamic_alloc _)

theorem blames_deallocate : Blames p flaw deallocate := by
  refine blames_bind (blames_popTyped _ _) fun v => blames_get_bind fun m tame => ?_
  split
  · exact tame.of_data _ _ _ _ _ _
  · rename_i e failed
    exact blames_throw (m.memory.isDynamic_dealloc _ e failed) tame

theorem blames_store : Blames p flaw store := by
  refine blames_bind blames_pop fun size => blames_bind blames_pop fun v => ?_
  refine blames_ite (blames_throw rfl) ?_
  refine blames_bind (blames_byteCount _) fun count => ?_
  refine blames_bind (blames_popAddress _) fun address => ?_
  exact blames_modify fun m tame => tame.setBytes _ _

theorem blames_fetch : Blames p flaw fetch := by
  refine blames_bind (blames_popTyped _ _) fun code => blames_bind blames_pop fun size => ?_
  refine blames_ite (blames_throw rfl) ?_
  refine blames_bind (blames_byteCount _) fun count => ?_
  refine blames_bind (blames_popAddress _) fun address => ?_
  split
  · exact blames_bind blames_get fun _ => blames_push _
  · exact blames_throw rfl

/-! ### Output, the end of a run and native functions -/

theorem blames_write (bytes : List UInt8) : Blames p flaw (write bytes) :=
  blames_modify fun _ tame => tame.of_data _ _ _ _ _ _

theorem blames_writeError (bytes : List UInt8) : Blames p flaw (writeError bytes) :=
  blames_modify fun _ tame => tame.of_data _ _ _ _ _ _

theorem blames_haltWith (code : Int) : Blames p flaw (haltWith code) :=
  blames_modify fun _ tame => tame.of_data _ _ _ _ _ _

theorem blames_callForeign (f : Interaction) : Blames p flaw (callForeign f) := by
  refine blames_get_bind fun m tame => ?_
  have dynamic : ∀ e, (f.run m.stack m.pending).2 = some e → e.isStatic = false :=
    f.isStatic_run m.stack (by simp [tame.pending])
  cases ran : f.run m.stack m.pending with
  | mk stack pending =>
    rw [ran] at dynamic
    have called : ({ m with stack, pending := none } : Machine).Tame p :=
      ⟨tame.program, tame.natives, rfl⟩
    cases pending with
    | none => exact called
    | some e => exact blames_throw (α := Unit) (dynamic e rfl) called

/-- A function of a tame table does not fail at will. -/
theorem blames_callNative (index : Int) : Blames p flaw (callNative index) := by
  refine blames_get_bind fun m tame => ?_
  dsimp only
  generalize found : (if 0 ≤ index then m.natives[index.toNat]? else none) = native
  cases native with
  | none => exact blames_throw rfl tame
  | some f =>
    have listed : f ∈ m.natives.toList := by
      split at found
      · exact Array.mem_toList_iff.2 (Array.mem_of_getElem? found)
      · cases found
    cases f with
    | write =>
      refine blames_bind blames_pop (fun stream => ?_) tame
      refine blames_bind (blames_popText _) fun text => ?_
      exact blames_ite (blames_write _) (blames_ite (blames_writeError _) (blames_throw rfl))
    | exit => exact blames_bind blames_pop (fun _ => blames_haltWith _) tame
    | haltWith code => exact blames_haltWith _ tame
    | failWith fault => exact absurd (tame.natives _ listed) (by simp [Native.isTame])
    | foreign f => exact blames_callForeign _ tame

theorem blames_loadLibrary : Blames p flaw loadLibrary := by
  refine blames_bind (blames_popText _) fun library => ?_
  refine blames_bind (blames_popText _) fun symbol => blames_get_bind fun m tame => ?_
  split
  · exact blames_throw rfl tame
  split
  · exact blames_throw rfl tame
  split
  · rename_i added
    exact tame.addNative rfl added
  · rename_i e failed
    exact blames_throw (m.isDynamic_addNative _ e failed) tame

/-- The effect of an instruction. -/
theorem blames_effect (i : Instruction) : Blames p (p.flaw? i) (effect i) := by
  unfold effect
  cases op : i.op with
  | push => exact blames_pushOperand op
  | pushStr => exact blames_pushString op
  | mov => exact blames_load op
  | ref => exact blames_reference
  | deref => exact blames_dereference
  | alloc => exact blames_allocate
  | dealloc => exact blames_deallocate
  | write => exact blames_store
  | read => exact blames_fetch
  | pop => exact blames_bind blames_pop fun _ => blames_pure _
  | dup => exact blames_bind blames_top fun _ => blames_push _
  | indup =>
    refine blames_bind blames_popIndex fun index => blames_bind blames_get fun m => ?_
    split
    · exact blames_push _
    · exact blames_throw rfl
  | swap =>
    exact blames_bind blames_get fun _ => blames_ite (blames_throw rfl) (blames_swap _ _)
  | inswap =>
    exact blames_bind blames_popIndex fun _ => blames_bind blames_get fun _ => blames_swap _ _
  | mod | and | or => exact blames_binary (Logic.isDynamic_apply _)
  | addF | subF | mulF | divF | modF => exact blames_binary (FloatArith.isDynamic_apply _)
  | itof | ftoi | itoc => exact blames_unary _
  | toi | tof | toc | tovp => exact blames_retag _
  | print => exact blames_bind blames_pop fun _ => blames_write _
  | native => exact blames_callNative _
  | entrypoint => exact blames_throw_static (by simp [Program.flaw?, op])
  | loadLib => exact blames_loadLibrary
  | ss => exact blames_bind blames_get fun _ => blames_push _
  | halt => exact blames_haltWith 0
  | nop | call | ret | jmp | zjmp | nzjmp => exact blames_pure _
  | _ => exact blames_binary (Arith.isDynamic_apply _ _)

theorem blames_jumpTarget {i : Instruction} (op : i.op.isJump) :
    Blames p (p.flaw? i) (jumpTarget i) := by
  have known := p.flaw?_of_isJump op
  unfold jumpTarget
  dsimp only
  split
  · rename_i zero
    exact blames_throw_static (by rw [known, if_pos zero])
  rename_i nonzero
  refine blames_get_bind fun m tame => ?_
  obtain rfl := tame.program
  split
  · rename_i outside
    exact blames_throw_static (by rw [known, if_neg nonzero, if_pos outside]) tame
  · exact blames_pure _ tame

theorem blames_execute (i : Instruction) : Blames p (p.flaw? i) (execute i) := by
  refine blames_bind blames_get fun before => ?_
  cases op : i.op with
  | call =>
    refine blames_bind (blames_jumpTarget (by rw [op]; rfl)) fun target => ?_
    refine blames_bind blames_get fun m => blames_ite (blames_throw rfl) ?_
    refine blames_bind (blames_modify fun m tame => ?_) fun _ => blames_pure _
    exact ⟨tame.program, tame.natives, tame.pending⟩
  | ret =>
    refine blames_get_bind fun m tame => ?_
    split
    · exact blames_throw rfl tame
    · exact ⟨tame.program, tame.natives, tame.pending⟩
  | jmp => exact blames_jumpTarget (by rw [op]; rfl)
  | zjmp | nzjmp =>
    refine blames_bind (blames_jumpTarget (by rw [op]; rfl)) fun target => ?_
    exact blames_bind blames_pop fun _ => blames_pure _
  | _ => exact blames_bind (blames_effect i) fun _ => blames_pure _

end Exec

/-! ## Runs -/

namespace Machine

variable {p : Program} {m n : Machine}

/-- A step of a tame machine: it stays tame, and a fault of the program is one of the instruction
that failed. -/
theorem tame_step_cases (h : m.Tame p) {e : Option Fault} (run : m.step = (e, n)) :
    n.Tame p ∧ ∀ fault, e = some fault → fault.isStatic →
      ∃ i, p.code[m.ip]? = some i ∧ p.flaw? i = some fault := by
  obtain rfl := h.program
  unfold step at run
  cases found : m.program.code[m.ip]? with
  | none =>
    rw [Exec.step_outside found] at run
    cases run
    refine ⟨h, fun fault failed static => ?_⟩
    cases failed
    cases static
  | some i =>
    cases halt : m.halt with
    | some code =>
      rw [Exec.step_halted found (by simp [halt])] at run
      cases run
      refine ⟨h, fun fault failed static => ?_⟩
      cases failed
      cases static
    | none =>
      rw [Exec.step_inside found halt] at run
      have blames := Exec.blames_execute i h
      unfold Exec.BlamesAt at blames
      cases executed : Exec.execute i m with
      | error e o =>
        rw [Exec.bind_of_error executed] at run
        rw [executed] at blames
        cases run
        refine ⟨blames.1, fun fault failed static => ⟨i, rfl, ?_⟩⟩
        cases failed
        exact blames.2 static
      | ok next o =>
        rw [Exec.bind_of_ok executed] at run
        rw [executed] at blames
        cases run
        refine ⟨⟨blames.program, blames.natives, blames.pending⟩, fun fault failed => ?_⟩
        cases failed

/-- The machines that a machine becomes by steps, whatever they give, and by functions that are
added to its native table in between and do not fail at will. -/
inductive Reaches (m : Machine) : Machine → Prop where
  | refl : Reaches m m
  | step {n o : Machine} {e : Option Fault} (before : Reaches m n) (run : n.step = (e, o)) :
      Reaches m o
  | add {n o : Machine} {f : Native} {index : Nat} (before : Reaches m n) (tame : f.isTame)
      (added : n.addNative f = .ok (index, o)) : Reaches m o

theorem Tame.reaches (h : m.Tame p) (run : m.Reaches n) : n.Tame p := by
  induction run with
  | refl => exact h
  | step _ run ih => exact (tame_step_cases ih run).1
  | add _ tame added ih => exact ih.addNative tame added

/-- **Faults of a program are flaws of its instructions.** No run of a program fails with such a
fault but at an instruction that has it. -/
theorem flaw_of_reaches {loader : Loader} {e : Fault} (run : (start p loader).Reaches m)
    (failed : m.step = (some e, n)) (static : e.isStatic) :
    ∃ i, p.code[m.ip]? = some i ∧ p.flaw? i = some e :=
  (tame_step_cases ((Tame.start p loader).reaches run) failed).2 e rfl static

end Machine

end StackLang
