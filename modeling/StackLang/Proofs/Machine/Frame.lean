import StackLang.Machine.Step

/-!
# What an effect leaves alone

The effect of an instruction works on the operand stack, the registers, memory, the native table
and what is written. It leaves the program, the index of the next instruction and the return
stack alone, keeps the number of slots, and appends to the native table at most. `Machine.Frame`
says so for two machines and `Exec.Frames` for an action, whether it succeeds or fails; all
actions are built from a few that touch the machine, so `frames_effect` is put together the way
the effects are.
-/

namespace StackLang

open Bytecode

/-- `n` is a machine that an effect may make of `m`. -/
structure Machine.Frame (m n : Machine) : Prop where
  program : n.program = m.program
  ip : n.ip = m.ip
  returns : n.returns = m.returns
  slots : n.stack.capacity = m.stack.capacity
  natives : m.natives.toList <+: n.natives.toList
  room : m.natives.size ≤ nativeCapacity → n.natives.size ≤ nativeCapacity
  pending : m.pending = none → n.pending = none

namespace Machine.Frame

theorem refl (m : Machine) : m.Frame m :=
  ⟨rfl, rfl, rfl, rfl, List.prefix_rfl, id, id⟩

theorem trans {a b c : Machine} (h : a.Frame b) (h' : b.Frame c) : a.Frame c where
  program := h'.program.trans h.program
  ip := h'.ip.trans h.ip
  returns := h'.returns.trans h.returns
  slots := h'.slots.trans h.slots
  natives := h.natives.trans h'.natives
  room := h'.room ∘ h.room
  pending := h'.pending ∘ h.pending

/-- Registers, memory, the end of the run and what is written are no part of the frame. -/
theorem of_data (m : Machine) (registers : Vector Value 16) (memory : Memory) (halt : Option Int)
    (out err : Array UInt8) : m.Frame { m with registers, memory, halt, out, err } :=
  ⟨rfl, rfl, rfl, rfl, List.prefix_rfl, id, id⟩

/-- Only the stack is another one, with as many slots. -/
theorem of_stack {m : Machine} {stack : Stack} (h : stack.capacity = m.stack.capacity) :
    m.Frame { m with stack } :=
  ⟨rfl, rfl, rfl, h, List.prefix_rfl, id, id⟩

end Machine.Frame

/-! ## The stack -/

namespace Stack

theorem capacity_of_push {s t : Stack} {v : Value} (h : s.push v = .ok t) :
    t.capacity = s.capacity := by
  obtain ⟨w, free, live⟩ := push_eq_ok_iff.1 h
  simp only [capacity, free, live, List.length_cons]
  omega

theorem capacity_of_pop {s t : Stack} {v : Value} (h : s.pop = .ok (v, t)) :
    t.capacity = s.capacity := by
  obtain ⟨live, free⟩ := pop_eq_ok_iff.1 h
  simp only [capacity, free, live, List.length_cons]
  omega

theorem capacity_of_retag {s t : Stack} {tag : Tag} (h : s.retag tag = .ok t) :
    t.capacity = s.capacity := by
  unfold retag at h
  split at h
  · cases h
  rename_i v live top
  cases h
  simp [capacity, top]

theorem capacity_of_swap {s t : Stack} {i j : Nat} (h : s.swap i j = .ok t) :
    t.capacity = s.capacity := by
  unfold swap at h
  split at h
  · cases h
    simp [capacity]
  · cases h

@[simp] theorem capacity_setByte (s : Stack) (offset : Nat) (b : UInt8) :
    (s.setByte offset b).capacity = s.capacity := by
  simp only [setByte, capacity]
  split <;> simp

theorem size_le_capacity (s : Stack) : s.size ≤ s.capacity := Nat.le_add_right _ _

end Stack

theorem Interaction.capacity_run (f : Interaction) (s : Stack) (pending : Option Fault) :
    (f.run s pending).1.capacity = s.capacity := by
  induction f generalizing s pending with
  | done => rfl
  | pop next ih =>
    rw [run]
    split
    · rename_i v t popped
      rw [ih, Stack.capacity_of_pop popped]
    · exact ih _ _ _
  | push v next ih =>
    rw [run]
    split
    · rename_i t pushed
      rw [ih, Stack.capacity_of_push pushed]
    · exact ih _ _

namespace Machine

theorem frame_setByte (m : Machine) (address : Nat) (b : UInt8) :
    m.Frame (m.setByte address b) := by
  unfold setByte
  split
  · exact .of_stack (by simp)
  · exact .of_data m _ _ _ _ _

theorem frame_setBytes (m : Machine) (address : Nat) (bytes : List UInt8) :
    m.Frame (m.setBytes address bytes) := by
  induction bytes generalizing m address with
  | nil => exact .refl m
  | cons b rest ih => exact (m.frame_setByte address b).trans (ih _ _)

/-- The native table grows at its end, and never beyond its capacity. -/
theorem frame_of_addNative {m n : Machine} {f : Native} {i : Nat}
    (h : m.addNative f = .ok (i, n)) : m.Frame n := by
  unfold addNative at h
  split at h
  · cases h
  rename_i room
  cases h
  refine ⟨rfl, rfl, rfl, rfl, ?_, fun _ => ?_, id⟩
  · simp
  · simp only [Array.size_push]
    omega

end Machine

/-! ## Actions -/

namespace Exec

variable {α β : Type}

/-- The machine that an action ends with on `m`, whether it succeeds or fails, satisfies `P`. -/
def Ends (x : Exec α) (m : Machine) (P : Machine → Prop) : Prop :=
  match x m with
  | .ok _ n => P n
  | .error _ n => P n

/-- An action stays in the frame of every machine. -/
def Frames (x : Exec α) : Prop := ∀ m, x.Ends m m.Frame

theorem Ends.of_ok {x : Exec α} {m n : Machine} {P : Machine → Prop} {a : α} (h : x.Ends m P)
    (run : x m = .ok a n) : P n := by
  unfold Ends at h
  rwa [run] at h

theorem Ends.of_error {x : Exec α} {m n : Machine} {P : Machine → Prop} {e : Fault}
    (h : x.Ends m P) (run : x m = .error e n) : P n := by
  unfold Ends at h
  rwa [run] at h

/-- An action that runs on in the frame of an earlier machine stays in it. -/
theorem Frames.after {x : Exec α} {m n : Machine} (hx : Frames x) (h : m.Frame n) :
    x.Ends n m.Frame := by
  unfold Ends
  cases run : x n with
  | error e o => exact h.trans ((hx n).of_error run)
  | ok a o => exact h.trans ((hx n).of_ok run)

theorem bind_of_ok {x : Exec α} {f : α → Exec β} {m n : Machine} {a : α} (h : x m = .ok a n) :
    (x >>= f) m = f a n := by
  simp [bind, EStateM.bind, h]

theorem bind_of_error {x : Exec α} {f : α → Exec β} {m n : Machine} {e : Fault}
    (h : x m = .error e n) : (x >>= f) m = .error e n := by
  simp [bind, EStateM.bind, h]

theorem frames_bind {x : Exec α} {f : α → Exec β} (hx : Frames x) (hf : ∀ a, Frames (f a)) :
    Frames (x >>= f) := by
  intro m
  unfold Ends
  cases run : x m with
  | error e n =>
    rw [bind_of_error run]
    exact (hx m).of_error run
  | ok a n =>
    rw [bind_of_ok run]
    exact (hf a).after ((hx m).of_ok run)

theorem frames_pure (a : α) : Frames (pure a) := fun m => .refl m

theorem frames_throw (e : Fault) : Frames (throw e : Exec α) := fun m => .refl m

/-- To read the machine first is to know on which one the rest runs. -/
theorem frames_get_bind {f : Machine → Exec α} (h : ∀ m, (f m).Ends m m.Frame) :
    Frames (get >>= f) := h

theorem frames_get : Frames (get : Exec Machine) := fun m => .refl m

theorem frames_modify {f : Machine → Machine} (h : ∀ m : Machine, m.Frame (f m)) :
    Frames (modify f : Exec Unit) := h

theorem frames_ite {p : Prop} [Decidable p] {x y : Exec α} (hx : Frames x) (hy : Frames y) :
    Frames (if p then x else y) := by
  split
  · exact hx
  · exact hy

/-! ### Actions on the operand stack -/

theorem frames_push (v : Value) : Frames (push v) := by
  refine frames_get_bind fun m => ?_
  split
  · rename_i stack pushed
    exact Machine.Frame.of_stack (Stack.capacity_of_push pushed)
  · exact .refl m

theorem frames_pop : Frames pop := by
  refine frames_get_bind fun m => ?_
  split
  · rename_i v stack popped
    exact Machine.Frame.of_stack (Stack.capacity_of_pop popped)
  · exact .refl m

theorem frames_top : Frames top := by
  refine frames_get_bind fun m => ?_
  split
  · exact .refl m
  · exact .refl m

theorem frames_retag (tag : Tag) : Frames (retag tag) := by
  refine frames_get_bind fun m => ?_
  split
  · rename_i stack retagged
    exact Machine.Frame.of_stack (Stack.capacity_of_retag retagged)
  · exact .refl m

theorem frames_swap (i j : Nat) : Frames (swap i j) := by
  refine frames_get_bind fun m => ?_
  split
  · rename_i stack swapped
    exact Machine.Frame.of_stack (Stack.capacity_of_swap swapped)
  · exact .refl m

theorem frames_popTyped (op : Op) (expected : Tag) : Frames (popTyped op expected) :=
  frames_bind frames_pop fun _ => frames_ite (frames_pure _) (frames_throw _)

theorem frames_popAddress (op : Op) : Frames (popAddress op) :=
  frames_bind (frames_popTyped _ _) fun _ => frames_ite (frames_throw _) (frames_pure _)

theorem frames_popText (op : Op) : Frames (popText op) :=
  frames_bind (frames_popAddress _) fun _ => frames_bind frames_get fun _ => frames_pure _

theorem frames_popIndex : Frames popIndex :=
  frames_bind frames_pop fun _ => frames_bind frames_get fun _ =>
    frames_ite (frames_throw _) (frames_pure _)

theorem frames_byteCount (size : Value) : Frames (byteCount size) :=
  frames_ite (frames_throw _) (frames_ite (frames_throw _) (frames_pure _))

theorem frames_register (i : Instruction) : Frames (register i) := by
  unfold register
  split
  · exact frames_pure _
  · exact frames_throw _

theorem frames_binary (f : Value → Value → Except Fault Value) : Frames (binary f) := by
  refine frames_bind frames_pop fun b => frames_bind frames_pop fun a => ?_
  split
  · exact frames_push _
  · exact frames_throw _

theorem frames_unary (f : Value → Value) : Frames (unary f) :=
  frames_bind frames_pop fun _ => frames_push _

/-! ### Actions on memory and registers -/

theorem frames_pushCell (made : Memory → Except Fault (Nat × Memory)) :
    Frames (pushCell made) := by
  refine frames_get_bind fun m => ?_
  split
  · rename_i address memory _
    exact (frames_push _).after (.of_data m _ memory _ _ _)
  · exact .refl m

theorem frames_pushOperand (i : Instruction) : Frames (pushOperand i) :=
  frames_ite
    (frames_bind (frames_register i) fun _ => frames_bind frames_get fun _ => frames_push _)
    (frames_push _)

theorem frames_pushString (i : Instruction) : Frames (pushString i) := by
  refine frames_bind frames_get fun m => ?_
  dsimp only
  generalize (if 0 ≤ i.value.toInt then m.program.strings[i.value.toInt.toNat]? else none) = found
  cases found with
  | none => exact frames_throw _
  | some text => exact frames_pushCell _

theorem frames_load (i : Instruction) : Frames (load i) := by
  refine frames_bind (frames_register i) fun r => ?_
  have stored (v : Value) : Frames (modify fun m => { m with registers := m.registers.set r v }) :=
    frames_modify fun m => .of_data m _ _ _ _ _
  split
  · exact frames_bind frames_top stored
  · exact frames_bind (frames_pure _) stored

theorem frames_reference : Frames reference :=
  frames_bind frames_get fun _ => frames_ite (frames_throw _) (frames_push _)

theorem frames_dereference : Frames dereference := by
  refine frames_bind frames_top fun v => frames_ite (frames_throw _) ?_
  refine frames_bind frames_get fun m => ?_
  dsimp only
  split
  · exact frames_push _
  · exact frames_throw _

theorem frames_allocate : Frames allocate :=
  frames_bind (frames_popTyped _ _) fun _ => frames_ite (frames_throw _) (frames_pushCell _)

theorem frames_deallocate : Frames deallocate := by
  refine frames_bind (frames_popTyped _ _) fun v => frames_get_bind fun m => ?_
  split
  · exact Machine.Frame.of_data m _ _ _ _ _
  · exact .refl m

theorem frames_store : Frames store := by
  refine frames_bind frames_pop fun size => frames_bind frames_pop fun v => ?_
  refine frames_ite (frames_throw _) ?_
  refine frames_bind (frames_byteCount _) fun count => ?_
  refine frames_bind (frames_popAddress _) fun address => ?_
  exact frames_modify fun m => m.frame_setBytes _ _

theorem frames_fetch : Frames fetch := by
  refine frames_bind (frames_popTyped _ _) fun code => frames_bind frames_pop fun size => ?_
  refine frames_ite (frames_throw _) ?_
  refine frames_bind (frames_byteCount _) fun count => ?_
  refine frames_bind (frames_popAddress _) fun address => ?_
  split
  · exact frames_bind frames_get fun _ => frames_push _
  · exact frames_throw _

/-! ### Output, the end of a run and native functions -/

theorem frames_write (bytes : List UInt8) : Frames (write bytes) :=
  frames_modify fun m => .of_data m _ _ _ _ _

theorem frames_writeError (bytes : List UInt8) : Frames (writeError bytes) :=
  frames_modify fun m => .of_data m _ _ _ _ _

theorem frames_haltWith (code : Int) : Frames (haltWith code) :=
  frames_modify fun m => .of_data m _ _ _ _ _

theorem frames_callForeign (f : Interaction) : Frames (callForeign f) := by
  refine frames_get_bind fun m => ?_
  have called : m.Frame { m with stack := (f.run m.stack m.pending).1, pending := none } :=
    ⟨rfl, rfl, rfl, f.capacity_run _ _, List.prefix_rfl, id, fun _ => rfl⟩
  cases ran : f.run m.stack m.pending with
  | mk stack pending =>
    rw [ran] at called
    cases pending with
    | none => exact (frames_pure ()).after called
    | some e => exact (frames_throw (α := Unit) e).after called

theorem frames_callNative (index : Int) : Frames (callNative index) := by
  refine frames_bind frames_get fun m => ?_
  dsimp only
  generalize (if 0 ≤ index then m.natives[index.toNat]? else none) = found
  cases found with
  | none => exact frames_throw _
  | some f =>
    cases f with
    | write =>
      refine frames_bind frames_pop fun stream => frames_bind (frames_popText _) fun text => ?_
      exact frames_ite (frames_write _) (frames_ite (frames_writeError _) (frames_throw _))
    | exit => exact frames_bind frames_pop fun _ => frames_haltWith _
    | haltWith code => exact frames_haltWith _
    | failWith fault => exact frames_throw _
    | foreign f => exact frames_callForeign _

theorem frames_loadLibrary : Frames loadLibrary := by
  refine frames_bind (frames_popText _) fun library => ?_
  refine frames_bind (frames_popText _) fun symbol => frames_get_bind fun m => ?_
  split
  · exact .refl m
  split
  · exact .refl m
  split
  · rename_i added
    exact Machine.frame_of_addNative added
  · exact .refl m

/-- The effect of any instruction stays in the frame. -/
theorem frames_effect (i : Instruction) : Frames (effect i) := by
  unfold effect
  cases i.op with
  | push => exact frames_pushOperand i
  | pushStr => exact frames_pushString i
  | mov => exact frames_load i
  | ref => exact frames_reference
  | deref => exact frames_dereference
  | alloc => exact frames_allocate
  | dealloc => exact frames_deallocate
  | write => exact frames_store
  | read => exact frames_fetch
  | pop => exact frames_bind frames_pop fun _ => frames_pure _
  | dup => exact frames_bind frames_top fun _ => frames_push _
  | indup =>
    refine frames_bind frames_popIndex fun index => frames_bind frames_get fun m => ?_
    split
    · exact frames_push _
    · exact frames_throw _
  | swap => exact frames_bind frames_get fun _ => frames_ite (frames_throw _) (frames_swap _ _)
  | inswap =>
    exact frames_bind frames_popIndex fun _ => frames_bind frames_get fun _ => frames_swap _ _
  | itof | ftoi | itoc => exact frames_unary _
  | toi | tof | toc | tovp => exact frames_retag _
  | print => exact frames_bind frames_pop fun _ => frames_write _
  | native => exact frames_callNative _
  | entrypoint => exact frames_throw _
  | loadLib => exact frames_loadLibrary
  | ss => exact frames_bind frames_get fun _ => frames_push _
  | halt => exact frames_haltWith 0
  | nop | call | ret | jmp | zjmp | nzjmp => exact frames_pure _
  | _ => exact frames_binary _

end Exec

end StackLang
