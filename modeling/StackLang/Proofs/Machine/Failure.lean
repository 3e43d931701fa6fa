import StackLang.Proofs.Machine.Locality

/-!
# What an instruction that fails leaves behind

Every instruction makes its checks before its effects, so one that fails has only taken operands
from the stack. `Machine.Spent` says so of two machines. `Exec.Takes` is about the actions in
front of a check, which have taken operands whether they succeed or fail, and `Exec.Fails` about
those that may have an effect when they succeed; a bind adds up what both take. One thing more can
be left behind: the cell of a string is made before its address is pushed onto a full stack. A
foreign function can pop and push as it likes before it reports a failure, and is left out.
-/

namespace StackLang

open Bytecode

/-- The native function at an index. -/
def Machine.native? (m : Machine) (index : Int) : Option Native :=
  if 0 ≤ index then m.natives[index.toNat]? else none

/-- `n` is `m` after the values `popped`, the topmost first, have been taken from its stack. -/
structure Machine.Pops (m : Machine) (popped : List Value) (n : Machine) : Prop where
  rest : n = { m with stack := n.stack }
  values : m.stack.live = popped ++ n.stack.live

/-- `n` is `m` after at most `count` values have been taken from its stack. -/
def Machine.Spent (count : Nat) (m n : Machine) : Prop :=
  ∃ popped, popped.length ≤ count ∧ m.Pops popped n

namespace Machine

variable {k l : Nat} {m n o : Machine} {popped popped' : List Value}

theorem Pops.refl (m : Machine) : m.Pops [] m := ⟨rfl, rfl⟩

theorem Pops.trans (h : m.Pops popped n) (h' : n.Pops popped' o) :
    m.Pops (popped ++ popped') o := by
  constructor
  · have first := h.rest
    have second := h'.rest
    generalize o.stack = stack at second
    rw [second, first]
  · rw [h.values, h'.values, List.append_assoc]

theorem Pops.memory (h : m.Pops popped n) : n.memory = m.memory := by
  rw [h.rest]

/-- To take values has nothing to do with memory. -/
theorem Pops.withMemory (h : m.Pops popped n) (memory : Memory) :
    Pops { m with memory } popped { n with memory } := by
  obtain ⟨rest, values⟩ := h
  refine ⟨?_, values⟩
  generalize n.stack = stack at rest
  rw [rest]

theorem Spent.refl (k : Nat) (m : Machine) : m.Spent k m := ⟨[], Nat.zero_le k, .refl m⟩

theorem Spent.trans (h : m.Spent k n) (h' : n.Spent l o) : m.Spent (l + k) o := by
  obtain ⟨popped, few, first⟩ := h
  obtain ⟨popped', few', second⟩ := h'
  refine ⟨popped ++ popped', ?_, first.trans second⟩
  rw [List.length_append]
  omega

theorem Spent.mono (h : m.Spent k n) (le : k ≤ l) : m.Spent l n := by
  obtain ⟨popped, few, pops⟩ := h
  exact ⟨popped, Nat.le_trans few le, pops⟩

theorem Spent.memory (h : m.Spent k n) : n.memory = m.memory := by
  obtain ⟨popped, -, pops⟩ := h
  exact pops.memory

theorem Spent.withMemory (h : m.Spent k n) (memory : Memory) :
    Spent k { m with memory } { n with memory } := by
  obtain ⟨popped, few, pops⟩ := h
  exact ⟨popped, few, pops.withMemory memory⟩

end Machine

theorem Memory.cells_of_allocBytes {memory memory' : Memory} {bytes : Array UInt8} {address : Nat}
    (h : memory.allocBytes bytes = .ok (address, memory')) : memory.cells <:+ memory'.cells := by
  unfold Memory.allocBytes at h
  split at h
  · cases h
    exact List.suffix_cons _ _
  · dsimp only at h
    split at h
    · cases h
    · cases h
      exact List.suffix_cons _ _

namespace Exec

variable {α β : Type} {k l : Nat} {m : Machine}

/-- If the action fails on `m`, it has taken at most `k` values and may have made cells. -/
def FailsAt (k : Nat) (x : Exec α) (m : Machine) : Prop :=
  ∀ e n, x m = .error e n →
    ∃ memory, m.memory.cells <:+ memory.cells ∧ Machine.Spent k { m with memory } n

/-- An action that, whenever it fails, has taken at most `k` values and may have made cells. -/
def Fails (k : Nat) (x : Exec α) : Prop := ∀ m, FailsAt k x m

/-- An action that takes at most `k` values and does nothing else. -/
def Takes (k : Nat) (x : Exec α) : Prop := ∀ m, x.Ends m (m.Spent k)

theorem Takes.fails {x : Exec α} (h : Takes k x) : Fails k x :=
  fun m _ _ run => ⟨m.memory, List.suffix_rfl, (h m).of_error run⟩

theorem FailsAt.mono {x : Exec α} (h : FailsAt k x m) (le : k ≤ l) : FailsAt l x m := by
  intro e n run
  obtain ⟨memory, cells, spent⟩ := h e n run
  exact ⟨memory, cells, spent.mono le⟩

theorem Fails.mono {x : Exec α} (h : Fails k x) (le : k ≤ l) : Fails l x :=
  fun m => (h m).mono le

/-! ### Actions in general -/

theorem fails_bind {x : Exec α} {f : α → Exec β} (hx : Takes k x) (hf : ∀ a, Fails l (f a)) :
    Fails (l + k) (x >>= f) := by
  intro m e n run
  cases first : x m with
  | error e' o =>
    rw [bind_of_error first] at run
    cases run
    exact hx.fails.mono (Nat.le_add_left k l) m e _ first
  | ok a o =>
    rw [bind_of_ok first] at run
    have spent := (hx m).of_ok first
    obtain ⟨memory, cells, more⟩ := hf a o e n run
    rw [spent.memory] at cells
    exact ⟨memory, cells, (spent.withMemory memory).trans more⟩

theorem takes_bind {x : Exec α} {f : α → Exec β} (hx : Takes k x) (hf : ∀ a, Takes l (f a)) :
    Takes (l + k) (x >>= f) := by
  intro m
  unfold Ends
  cases first : x m with
  | error e o =>
    rw [bind_of_error first]
    exact ((hx m).of_error first).mono (Nat.le_add_left k l)
  | ok a o =>
    rw [bind_of_ok first]
    have spent := (hx m).of_ok first
    cases second : f a o with
    | error e n => exact spent.trans ((hf a o).of_error second)
    | ok b n => exact spent.trans ((hf a o).of_ok second)

theorem takes_pure (a : α) : Takes k (pure a) := fun m => .refl k m

theorem takes_throw (e : Fault) : Takes k (throw e : Exec α) := fun m => .refl k m

theorem takes_get : Takes 0 (get : Exec Machine) := fun m => .refl 0 m

theorem takes_ite {p : Prop} [Decidable p] {x y : Exec α} (hx : Takes k x) (hy : Takes k y) :
    Takes k (if p then x else y) := by
  split
  · exact hx
  · exact hy

theorem fails_pure (a : α) : Fails k (pure a) := (takes_pure a).fails

theorem fails_throw (e : Fault) : Fails k (throw e : Exec α) := (takes_throw e).fails

/-- An action that always succeeds. -/
theorem fails_modify (f : Machine → Machine) : Fails k (modify f : Exec Unit) := by
  intro m e n run
  cases run

theorem fails_ite {p : Prop} [Decidable p] {x y : Exec α} (hx : Fails k x) (hy : Fails k y) :
    Fails k (if p then x else y) := by
  split
  · exact hx
  · exact hy

theorem failsAt_get_bind {f : Machine → Exec α} (h : FailsAt k (f m) m) :
    FailsAt k (get >>= f) m := h

/-- What follows on an action that always succeeds. -/
theorem failsAt_bind_pure {x : Exec α} {f : α → β} (h : FailsAt k x m) :
    FailsAt k (do
      let a ← x
      return f a) m := by
  intro e n run
  cases first : x m with
  | error e' o =>
    rw [bind_of_error first] at run
    cases run
    exact h e n first
  | ok a o =>
    rw [bind_of_ok first] at run
    cases run

/-! ### Actions on the operand stack -/

theorem fails_push (v : Value) : Fails k (push v) := by
  intro m
  refine failsAt_get_bind ?_
  split
  · intro e n run
    cases run
  · exact fails_throw _ m

theorem takes_pop : Takes 1 pop := by
  intro m
  unfold Ends pop
  rw [bind_get]
  cases popped : m.stack.pop with
  | error e => exact .refl 1 m
  | ok result =>
    obtain ⟨v, stack⟩ := result
    obtain ⟨live, -⟩ := Stack.pop_eq_ok_iff.1 popped
    exact ⟨[v], Nat.le_refl 1, rfl, live⟩

theorem takes_top : Takes 0 top := by
  intro m
  unfold Ends top
  rw [bind_get]
  cases m.stack.top? with
  | none => exact .refl 0 m
  | some v => exact .refl 0 m

theorem takes_popTyped (op : Op) (expected : Tag) : Takes 1 (popTyped op expected) :=
  takes_bind takes_pop fun _ => takes_ite (takes_pure _) (takes_throw _)

theorem takes_popAddress (op : Op) : Takes 1 (popAddress op) :=
  takes_bind (takes_popTyped _ _) fun _ => takes_ite (takes_throw _) (takes_pure _)

theorem takes_popText (op : Op) : Takes 1 (popText op) :=
  takes_bind (takes_popAddress _) fun _ => takes_bind takes_get fun _ => takes_pure _

theorem takes_popIndex : Takes 1 popIndex :=
  takes_bind takes_pop fun _ => takes_bind takes_get fun _ =>
    takes_ite (takes_throw _) (takes_pure _)

theorem takes_byteCount (size : Value) : Takes 0 (byteCount size) :=
  takes_ite (takes_throw _) (takes_ite (takes_throw _) (takes_pure _))

theorem takes_register (i : Instruction) : Takes 0 (register i) := by
  unfold register
  split
  · exact takes_pure _
  · exact takes_throw _

theorem takes_jumpTarget (i : Instruction) : Takes 0 (jumpTarget i) := by
  intro m
  unfold Ends
  obtain ⟨target, run, -⟩ | ⟨e, run⟩ := jumpTarget_cases i m
  · rw [run]
    exact .refl 0 m
  · rw [run]
    exact .refl 0 m

theorem fails_retag (tag : Tag) : Fails k (retag tag) := by
  intro m
  refine failsAt_get_bind ?_
  split
  · intro e n run
    cases run
  · exact fails_throw _ m

theorem fails_swap (i j : Nat) : Fails k (swap i j) := by
  intro m
  refine failsAt_get_bind ?_
  split
  · intro e n run
    cases run
  · exact fails_throw _ m

theorem fails_binary (f : Value → Value → Except Fault Value) : Fails 2 (binary f) := by
  refine fails_bind takes_pop fun b => fails_bind takes_pop fun a => ?_
  split
  · exact fails_push _
  · exact fails_throw _

theorem fails_unary (f : Value → Value) : Fails 1 (unary f) :=
  fails_bind takes_pop fun _ => fails_push _

/-! ### Actions on memory and registers -/

/-- The cell is made before its address is pushed. -/
theorem fails_pushCell {made : Memory → Except Fault (Nat × Memory)}
    (grows : ∀ memory address memory', made memory = .ok (address, memory') →
      memory.cells <:+ memory'.cells) : Fails k (pushCell made) := by
  intro m
  refine failsAt_get_bind ?_
  split
  · rename_i address memory cell
    intro e n run
    obtain ⟨memory', more, spent⟩ := fails_push (k := k) (.ptr address) { m with memory } e n run
    exact ⟨memory', (grows _ _ _ cell).trans more, spent⟩
  · exact fails_throw _ m

theorem fails_pushOperand (i : Instruction) : Fails k (pushOperand i) :=
  fails_ite
    (fails_bind (takes_register i) fun _ => fails_bind takes_get fun _ => fails_push _)
    (fails_push _)

theorem fails_pushString (i : Instruction) : Fails k (pushString i) := by
  refine fails_bind takes_get fun m => ?_
  dsimp only
  generalize (if 0 ≤ i.value.toInt then m.program.strings[i.value.toInt.toNat]? else none) = found
  cases found with
  | none => exact fails_throw _
  | some text => exact fails_pushCell fun _ _ _ => Memory.cells_of_allocBytes

theorem fails_load (i : Instruction) : Fails k (load i) := by
  refine fails_bind (takes_register i) fun r => ?_
  split
  · exact fails_bind takes_top fun _ => fails_modify _
  · exact fails_bind (takes_pure (k := 0) _) fun _ => fails_modify _

theorem fails_reference : Fails k reference :=
  fails_bind takes_get fun _ => fails_ite (fails_throw _) (fails_push _)

theorem fails_dereference : Fails k dereference := by
  refine fails_bind takes_top fun v => fails_ite (fails_throw _) ?_
  refine fails_bind takes_get fun m => ?_
  dsimp only
  split
  · exact fails_push _
  · exact fails_throw _

theorem fails_allocate : Fails 1 allocate := by
  refine fails_bind (takes_popTyped _ _) fun _ => fails_ite (fails_throw _) (fails_pushCell ?_)
  intro memory address memory' made
  unfold Memory.alloc at made
  split at made
  · cases made
  · exact Memory.cells_of_allocBytes made

theorem fails_deallocate : Fails 1 deallocate := by
  refine fails_bind (takes_popTyped _ _) fun v m => failsAt_get_bind ?_
  split
  · intro e n run
    cases run
  · exact fails_throw _ m

theorem fails_store : Fails 3 store := by
  refine fails_bind takes_pop fun size => fails_bind takes_pop fun v => ?_
  refine fails_ite (fails_throw _) ?_
  refine fails_bind (takes_byteCount _) fun count => ?_
  exact fails_bind (takes_popAddress _) fun address => fails_modify _

theorem fails_fetch : Fails 3 fetch := by
  refine fails_bind (takes_popTyped _ _) fun code => fails_bind takes_pop fun size => ?_
  refine fails_ite (fails_throw _) ?_
  refine fails_bind (takes_byteCount _) fun count => ?_
  refine fails_bind (takes_popAddress _) fun address => ?_
  split
  · exact fails_bind takes_get fun _ => fails_push _
  · exact fails_throw _

/-! ### Native functions -/

theorem fails_loadLibrary : Fails 2 loadLibrary := by
  refine fails_bind (takes_popText _) fun library => fails_bind (takes_popText _) fun symbol m => ?_
  refine failsAt_get_bind ?_
  split
  · exact fails_throw _ m
  split
  · exact fails_throw _ m
  split
  · intro e n run
    cases run
  · exact fails_throw _ m

theorem failsAt_callNative {index : Int} (native : ∀ f, m.native? index ≠ some (.foreign f)) :
    FailsAt 2 (callNative index) m := by
  unfold callNative
  refine failsAt_get_bind ?_
  unfold Machine.native? at native
  dsimp only
  generalize (if 0 ≤ index then m.natives[index.toNat]? else none) = found at native
  cases found with
  | none => exact fails_throw _ m
  | some f =>
    cases f with
    | write =>
      refine fails_bind takes_pop (fun stream => ?_) m
      refine fails_bind (takes_popText _) fun text => ?_
      exact fails_ite (fails_modify _) (fails_ite (fails_modify _) (fails_throw _))
    | exit =>
      refine Fails.mono ?_ (by decide : 1 ≤ 2) m
      exact fails_bind takes_pop fun _ => fails_modify _
    | haltWith code => exact fails_modify _ m
    | failWith fault => exact fails_throw _ m
    | foreign f => exact absurd rfl (native f)

/-! ### Instructions -/

theorem failsAt_effect {i : Instruction}
    (native : i.op = .native → ∀ f, m.native? i.value.toInt ≠ some (.foreign f)) :
    FailsAt 3 (effect i) m := by
  unfold effect
  have one {x : Exec Unit} (h : Fails 1 x) : FailsAt 3 x m := h.mono (by decide) m
  have two {x : Exec Unit} (h : Fails 2 x) : FailsAt 3 x m := h.mono (by decide) m
  cases op : i.op with
  | push => exact fails_pushOperand i m
  | pushStr => exact fails_pushString i m
  | mov => exact fails_load i m
  | ref => exact fails_reference m
  | deref => exact fails_dereference m
  | alloc => exact one fails_allocate
  | dealloc => exact one fails_deallocate
  | write => exact fails_store m
  | read => exact fails_fetch m
  | pop => exact one (fails_bind takes_pop fun _ => fails_pure _)
  | dup => exact fails_bind takes_top (fun _ => fails_push _) m
  | indup =>
    refine one (fails_bind takes_popIndex fun index => fails_bind takes_get fun m => ?_)
    split
    · exact fails_push _
    · exact fails_throw _
  | swap =>
    exact fails_bind takes_get (fun _ => fails_ite (fails_throw _) (fails_swap _ _)) m
  | inswap =>
    exact one (fails_bind takes_popIndex fun _ => fails_bind takes_get fun _ =>
      fails_swap _ _)
  | itof | ftoi | itoc => exact one (fails_unary _)
  | toi | tof | toc | tovp => exact fails_retag _ m
  | print => exact one (fails_bind takes_pop fun _ => fails_modify _)
  | native => exact (failsAt_callNative (native op)).mono (by decide)
  | entrypoint => exact fails_throw _ m
  | loadLib => exact two fails_loadLibrary
  | ss => exact fails_bind takes_get (fun _ => fails_push _) m
  | halt => exact fails_modify _ m
  | nop | call | ret | jmp | zjmp | nzjmp => exact fails_pure _ m
  | _ => exact two (fails_binary _)

theorem failsAt_execute {i : Instruction}
    (native : i.op = .native → ∀ f, m.native? i.value.toInt ≠ some (.foreign f)) :
    FailsAt 3 (execute i) m := by
  refine failsAt_get_bind ?_
  have acts := failsAt_effect native
  cases op : i.op with
  | call =>
    refine fails_bind (takes_jumpTarget i) (fun target => fails_bind takes_get fun m => ?_) m
    refine fails_ite (fails_throw _) fun m => ?_
    exact failsAt_bind_pure (fails_modify _ m)
  | ret =>
    refine failsAt_get_bind ?_
    split
    · exact fails_throw _ m
    · intro e n run
      cases run
  | jmp => exact (takes_jumpTarget i).fails.mono (by decide) m
  | zjmp | nzjmp =>
    refine Fails.mono (k := 1) ?_ (by decide) m
    exact fails_bind (takes_jumpTarget i) fun target => fails_bind takes_pop fun _ => fails_pure _
  | _ => exact failsAt_bind_pure acts

end Exec

/-! ## Steps -/

namespace Machine

variable {m n : Machine} {e : Fault}

/-- A step that fails had nothing to execute, or the instruction failed. -/
theorem exists_execute_of_fault (h : m.step = (some e, n)) :
    n = m ∨ ∃ i, m.next? = some i ∧ Exec.execute i m = .error e n := by
  obtain ⟨-, -, same⟩ | ⟨i, found, -, ⟨succeeded, -⟩ | ⟨f, failed, run⟩⟩ := executes_of_step h
  · exact .inl same
  · cases succeeded
  · cases failed
    exact .inr ⟨i, found, run⟩

theorem spent_of_step (h : m.step = (some e, n))
    (native : ∀ i, m.next? = some i → i.op = .native →
      ∀ f, m.native? i.value.toInt ≠ some (.foreign f)) :
    ∃ memory, m.memory.cells <:+ memory.cells ∧ Spent 3 { m with memory } n := by
  obtain rfl | ⟨i, found, run⟩ := exists_execute_of_fault h
  · exact ⟨n.memory, List.suffix_rfl, .refl 3 n⟩
  · exact Exec.failsAt_execute (native i found) e n run

/-- **A step that fails changes nothing but the operands it has popped.** These are at most three
from the top of the stack, and the values below them are what they were. The live cells are still
there as well; at most the cell of a string whose address did not fit is new. -/
theorem unchanged_of_fault (h : m.step = (some e, n))
    (native : ∀ i, m.next? = some i → i.op = .native →
      ∀ f, m.native? i.value.toInt ≠ some (.foreign f)) :
    n.ip = m.ip ∧ n.halt = m.halt ∧ n.registers = m.registers ∧ n.returns = m.returns ∧
      n.natives = m.natives ∧ n.out = m.out ∧ n.err = m.err ∧ n.program = m.program ∧
      m.memory.cells <:+ n.memory.cells ∧
      ∃ popped, popped.length ≤ 3 ∧ m.stack.values = n.stack.values ++ popped := by
  obtain ⟨memory, cells, popped, few, rest, split⟩ := spent_of_step h native
  generalize n.stack = stack at rest split
  subst rest
  refine ⟨rfl, rfl, rfl, rfl, rfl, rfl, rfl, rfl, cells, popped.reverse, by simpa using few, ?_⟩
  dsimp only at split
  rw [Stack.values, Stack.values, split, List.reverse_append]

/-- A machine in front of a `write` through a null pointer. -/
def storing : Machine where
  program := { code := #[{ op := .nop }, { op := .write }] }
  ip := 1
  halt := none
  stack := ⟨[.int 4, .int 7, .ptr 0, .int 9], []⟩
  returns := []
  registers := .replicate 16 (.int 0)
  memory := .empty
  natives := #[.write, .exit]
  pending := none
  out := #[]
  err := #[]
  loader := .none

theorem unchanged_of_fault_storing :
    ∃ n, storing.step = (some .nullPointer, n) ∧ n.ip = 1 ∧ n.registers = storing.registers ∧
      ∃ popped, popped.length ≤ 3 ∧ storing.stack.values = n.stack.values ++ popped := by
  refine ⟨_, rfl, ?_⟩
  have unchanged := unchanged_of_fault (m := storing) (e := .nullPointer) rfl
    (by rintro i ⟨⟩ ⟨⟩)
  obtain ⟨ip, -, registers, -, -, -, -, -, -, values⟩ := unchanged
  exact ⟨ip, registers, values⟩

end Machine

end StackLang
