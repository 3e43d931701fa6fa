import StackLang.Proofs.Machine.Cells

/-!
# How many cells there are

A step gains a cell, loses one or keeps the cells that there are, with their numbers, addresses
and sizes. `Op.exchange` says which of these an instruction does from the way it ends, and
`relates_of_step` that every step of every machine does so. One exchange happens without success:
a string is copied into its cell before the address of the cell is pushed, so in front of a full
stack the step fails and the cell stays, at an address that nothing holds, `full_of_fault`.
-/

namespace StackLang

open Bytecode

/-- What a store keeps of a cell. -/
structure Extent where
  serial : Nat
  base : Nat
  size : Nat
deriving DecidableEq, Repr

/-- The number, the address and the size of a cell. -/
def Cell.extent (c : Cell) : Extent := ⟨c.serial, c.base, c.size⟩

/-- What becomes of the live cells. -/
inductive Exchange where
  /-- There is one cell more. -/
  | gain
  /-- There is one cell less. -/
  | lose
  /-- There are the same cells. -/
  | keep
deriving DecidableEq, Repr

/-- What an instruction does to the live cells if it ends with the fault, or with none. -/
def Bytecode.Op.exchange (op : Op) (e : Option Fault) : Exchange :=
  match op, e with
  | .alloc, none => .gain
  | .pushStr, none => .gain
  | .pushStr, some .stackOverflow => .gain
  | .dealloc, none => .lose
  | _, _ => .keep

/-- What a step does to the live cells if it ends with the fault, or with none. -/
def Machine.exchange (m : Machine) (e : Option Fault) : Exchange :=
  match m.next? with
  | some i => i.op.exchange e
  | none => .keep

namespace Memory

/-- What stores keep of the live cells, newest first. -/
def extents (m : Memory) : List Extent := m.cells.map Cell.extent

/-- The cells have numbers below that of the next cell. -/
def Numbered (m : Memory) : Prop := ∀ c ∈ m.cells, c.serial < m.made

/-- Every cell that was made is live or was freed. -/
def Balanced (m : Memory) : Prop := m.cells.length + m.freed.length = m.made

variable {m m' : Memory} {address : Nat}

@[simp] theorem extents_setByte (b : UInt8) : (m.setByte address b).extents = m.extents := by
  rw [setByte_eq]
  simp [extents, Function.comp_def, Cell.extent]

/-- The allocator has one way to fail. -/
theorem outOfMemory_of_allocBytes {bytes : Array UInt8} {e : Fault}
    (h : m.allocBytes bytes = .error e) : e = .outOfMemory := by
  unfold allocBytes at h
  split at h
  · cases h
  · dsimp only at h
    split at h
    · cases h
      rfl
    · cases h

theorem freed_of_allocBytes {bytes : Array UInt8} {base : Nat}
    (h : m.allocBytes bytes = .ok (base, m')) : m'.freed = m.freed := by
  unfold allocBytes at h
  split at h
  · cases h
    rfl
  · dsimp only at h
    split at h
    · cases h
    · cases h
      rfl

/-- The cell that is freed is the first one in the list that starts at the address. -/
theorem split_of_dealloc (h : m.dealloc address = .ok m') :
    ∃ newer c older, m'.freed = c :: m.freed ∧ m.cells = newer ++ c :: older ∧
      m'.cells = newer ++ older ∧ c.base = address ∧ ∀ d ∈ newer, d.base ≠ address := by
  unfold dealloc at h
  split at h
  · cases h
  · rename_i c found
    cases h
    obtain ⟨starts, newer, older, split, others⟩ := List.find?_eq_some_iff_append.1 found
    have kept : ∀ d ∈ newer, ¬ (d.base == address) = true := by simpa using others
    refine ⟨newer, c, older, rfl, split, ?_, by simpa using starts, by simpa using others⟩
    show m.cells.eraseP _ = _
    rw [split, List.eraseP_append_right _ kept]
    simp [starts]

end Memory

namespace Exchange

/-- What an exchange makes of memory. A cell that is gained has the next number, and one that is
lost may stand between others, all of which stay as they are. -/
def Relates (x : Exchange) (before after : Memory) : Prop :=
  match x with
  | .gain => after.freed = before.freed ∧ after.made = before.made + 1 ∧
      ∃ c, c.serial = before.made ∧ after.cells = c :: before.cells
  | .lose => after.made = before.made ∧ ∃ newer c older, after.freed = c :: before.freed ∧
      before.cells = newer ++ c :: older ∧ after.cells = newer ++ older
  | .keep => after.freed = before.freed ∧ after.made = before.made ∧
      after.extents = before.extents

variable {x : Exchange} {before after : Memory}

theorem Relates.of_eq (same : after = before) : keep.Relates before after := by
  rw [same]
  exact ⟨rfl, rfl, rfl⟩

theorem relates_allocBytes {bytes : Array UInt8} {base : Nat}
    (h : before.allocBytes bytes = .ok (base, after)) : gain.Relates before after := by
  obtain ⟨cells, made, -⟩ := Memory.made_of_allocBytes h
  exact ⟨Memory.freed_of_allocBytes h, made, _, rfl, cells⟩

theorem relates_dealloc {address : Nat} (h : before.dealloc address = .ok after) :
    lose.Relates before after := by
  obtain ⟨newer, c, older, freed, split, rest, -⟩ := Memory.split_of_dealloc h
  obtain ⟨-, made, -⟩ := Memory.shrinks_dealloc h
  exact ⟨made, newer, c, older, freed, split, rest⟩

/-- Nothing in memory has the number of a cell that is gained. -/
theorem Relates.numbered (h : x.Relates before after) (numbered : before.Numbered) :
    after.Numbered := by
  unfold Memory.Numbered at *
  cases x with
  | gain =>
    obtain ⟨-, made, c, serial, cells⟩ := h
    rw [cells, made]
    rintro d (_ | ⟨_, old⟩)
    · omega
    · have := numbered d old
      omega
  | lose =>
    obtain ⟨made, newer, c, older, -, split, cells⟩ := h
    rw [cells, made]
    intro d live
    apply numbered
    rw [split]
    simp only [List.mem_append, List.mem_cons] at live ⊢
    exact live.imp_right .inr
  | keep =>
    obtain ⟨-, made, extents⟩ := h
    intro d live
    have listed : d.extent ∈ before.extents := extents ▸ List.mem_map_of_mem live
    obtain ⟨c, old, same⟩ := List.mem_map.1 listed
    have serial : c.serial = d.serial := congrArg Extent.serial same
    rw [made, ← serial]
    exact numbered c old

theorem Relates.balanced (h : x.Relates before after) (balanced : before.Balanced) :
    after.Balanced := by
  unfold Memory.Balanced at *
  cases x with
  | gain =>
    obtain ⟨freed, made, c, -, cells⟩ := h
    rw [freed, made, cells, List.length_cons]
    omega
  | lose =>
    obtain ⟨made, newer, c, older, freed, split, cells⟩ := h
    rw [freed, made, cells]
    rw [split] at balanced
    simp only [List.length_append, List.length_cons] at balanced ⊢
    omega
  | keep =>
    obtain ⟨freed, made, extents⟩ := h
    have length := congrArg List.length extents
    simp only [Memory.extents, List.length_map] at length
    rw [freed, made, length, balanced]

end Exchange

/-! ## Actions -/

namespace Machine

theorem keep_setBytes (m : Machine) (address : Nat) (bytes : List UInt8) :
    Exchange.keep.Relates m.memory (m.setBytes address bytes).memory := by
  induction bytes generalizing m address with
  | nil => exact .of_eq rfl
  | cons b rest ih =>
    have first : Exchange.keep.Relates m.memory (m.setByte address b).memory := by
      unfold setByte
      split
      · exact .of_eq rfl
      · exact ⟨rfl, rfl, Memory.extents_setByte b⟩
    obtain ⟨freed, made, extents⟩ := ih (m.setByte address b) (address + 1)
    exact ⟨freed.trans first.1, made.trans first.2.1, extents.trans first.2.2⟩

end Machine

namespace Exec

variable {α β : Type} {m : Machine}

/-- The cells that an action leaves on `m`, by the fault that it ends with. -/
def Trades (exchange : Option Fault → Exchange) (x : Exec α) (m : Machine) : Prop :=
  match x m with
  | .ok _ n => (exchange none).Relates m.memory n.memory
  | .error e n => (exchange (some e)).Relates m.memory n.memory

variable {exchange : Option Fault → Exchange}

theorem trades_leaves {x : Exec α} (hx : Leaves x) : Trades (fun _ => .keep) x m := by
  have same := hx m
  unfold Ends at same
  unfold Trades
  split
  · rename_i run
    rw [run] at same
    exact .of_eq same
  · rename_i run
    rw [run] at same
    exact .of_eq same

/-- Actions in front that leave memory alone do not count. -/
theorem trades_bind {x : Exec α} {f : α → Exec β} (hx : Leaves x)
    (stop : ∀ e n, x m = .error e n → exchange (some e) = .keep)
    (rest : ∀ a n, x m = .ok a n → Trades exchange (f a) n) : Trades exchange (x >>= f) m := by
  unfold Trades
  cases run : x m with
  | error e n =>
    rw [bind_of_error run]
    dsimp only
    rw [stop e n run]
    exact .of_eq ((hx m).of_error run)
  | ok a n =>
    have more := rest a n run
    rw [bind_of_ok run]
    unfold Trades at more
    rwa [(hx m).of_ok run] at more

theorem error_of_bind_pure {x : Exec α} {f : α → β} {e : Fault} {n : Machine}
    (run : (do
      let a ← x
      return f a : Exec β) m = .error e n) : x m = .error e n := by
  cases first : x m with
  | error e' o =>
    rw [bind_of_error first] at run
    cases run
    rfl
  | ok a o =>
    rw [bind_of_ok first] at run
    cases run

theorem trades_bind_pure {x : Exec α} {f : α → β} (h : Trades exchange x m) :
    Trades exchange (do
      let a ← x
      return f a) m := by
  unfold Trades at h ⊢
  cases run : x m with
  | error e n =>
    rw [run] at h
    rw [bind_of_error run]
    exact h
  | ok a n =>
    rw [run] at h
    rw [bind_of_ok run]
    exact h

/-- A push succeeds unless there is no slot for the value. -/
theorem push_cases (v : Value) (m : Machine) :
    (∃ stack, push v m = .ok () { m with stack }) ∨
      m.stack.free = [] ∧ push v m = .error .stackOverflow m := by
  cases room : m.stack.free with
  | nil =>
    have full : m.stack.push v = .error .stackOverflow := Stack.push_eq_error_iff.2 ⟨room, rfl⟩
    refine .inr ⟨rfl, ?_⟩
    unfold push
    rw [bind_get, full]
    rfl
  | cons slot free => exact .inl ⟨_, push_of_free room⟩

/-- A value that has been popped leaves its slot free. -/
theorem free_of_popTyped {n : Machine} {op : Op} {tag : Tag} {v : Value}
    (run : popTyped op tag m = .ok v n) : n.stack.free ≠ [] := by
  obtain ⟨w, o, popped, checked⟩ := exists_of_bind run
  have same : n = o := by
    split at checked
    · cases checked
      rfl
    · cases checked
  unfold pop at popped
  rw [bind_get] at popped
  cases taken : m.stack.pop with
  | error e =>
    rw [taken] at popped
    cases popped
  | ok result =>
    rw [taken] at popped
    cases popped
    rw [same, (Stack.pop_eq_ok_iff.1 taken).2]
    exact List.cons_ne_nil _ _

/-- A cell is made whether or not there is a slot for its address. -/
theorem trades_pushCell {made : Memory → Except Fault (Nat × Memory)}
    (grows : ∀ address memory, made m.memory = .ok (address, memory) →
      Exchange.gain.Relates m.memory memory)
    (succeeds : exchange none = .gain)
    (fails : ∀ e, made m.memory = .error e → exchange (some e) = .keep)
    (full : m.stack.free = [] → exchange (some .stackOverflow) = .gain) :
    Trades exchange (pushCell made) m := by
  unfold Trades pushCell
  rw [bind_get]
  cases cell : made m.memory with
  | error e =>
    show (exchange (some e)).Relates m.memory m.memory
    rw [fails e cell]
    exact .of_eq rfl
  | ok result =>
    obtain ⟨address, memory⟩ := result
    have gained := grows address memory cell
    have goes : (do
        set { m with memory }
        push (.ptr address) : Exec Unit) m = push (.ptr address) { m with memory } := rfl
    dsimp only
    obtain ⟨stack, pushed⟩ | ⟨slots, pushed⟩ := push_cases (.ptr address) { m with memory }
    · rw [goes, pushed]
      show (exchange none).Relates m.memory memory
      rwa [succeeds]
    · rw [goes, pushed]
      show (exchange (some .stackOverflow)).Relates m.memory memory
      rwa [full slots]

theorem trades_pushString (i : Instruction) (m : Machine) :
    Trades (Op.exchange .pushStr) (pushString i) m := by
  unfold pushString
  refine trades_bind leaves_get (fun e n run => by cases run) fun o n run => ?_
  cases run
  dsimp only
  generalize (if 0 ≤ i.value.toInt then m.program.strings[i.value.toInt.toNat]? else none) = found
  cases found with
  | none => exact .of_eq rfl
  | some text =>
    refine trades_pushCell (fun _ _ => Exchange.relates_allocBytes) rfl ?_ fun _ => rfl
    intro e failed
    obtain rfl := Memory.outOfMemory_of_allocBytes failed
    rfl

/-- If there is no slot for the address, then memory is all that the cell has changed. -/
theorem full_of_pushCell {made : Memory → Except Fault (Nat × Memory)} {n : Machine}
    (fails : made m.memory ≠ .error .stackOverflow)
    (run : pushCell made m = .error .stackOverflow n) :
    m.stack.free = [] ∧ n = { m with memory := n.memory } := by
  unfold pushCell at run
  rw [bind_get] at run
  cases cell : made m.memory with
  | error e =>
    rw [cell] at run
    cases run
    exact absurd cell fails
  | ok result =>
    obtain ⟨address, memory⟩ := result
    rw [cell] at run
    change push (.ptr address) { m with memory } = _ at run
    obtain ⟨stack, pushed⟩ | ⟨slots, pushed⟩ := push_cases (.ptr address) { m with memory }
    · rw [pushed] at run
      cases run
    · rw [pushed] at run
      cases run
      exact ⟨slots, rfl⟩

theorem full_of_pushString {i : Instruction} {n : Machine}
    (run : pushString i m = .error .stackOverflow n) :
    m.stack.free = [] ∧ n = { m with memory := n.memory } := by
  unfold pushString at run
  rw [bind_get] at run
  generalize (if 0 ≤ i.value.toInt then m.program.strings[i.value.toInt.toNat]? else none) = found
    at run
  cases found with
  | none => cases run
  | some text =>
    refine full_of_pushCell (fun failed => ?_) run
    cases Memory.outOfMemory_of_allocBytes failed

/-- To pop the size frees a slot, so the address of the cell has one. -/
theorem trades_allocate (m : Machine) : Trades (Op.exchange .alloc) allocate m := by
  unfold allocate
  refine trades_bind (takes_popTyped _ _).leaves (fun e n run => rfl) fun size o run => ?_
  have room := free_of_popTyped run
  dsimp only
  split
  · exact .of_eq rfl
  refine trades_pushCell ?_ rfl (fun e failed => rfl) fun full => absurd full room
  intro address memory cell
  unfold Memory.alloc at cell
  split at cell
  · cases cell
  · exact Exchange.relates_allocBytes cell

theorem trades_deallocate (m : Machine) : Trades (Op.exchange .dealloc) deallocate m := by
  unfold deallocate
  refine trades_bind (takes_popTyped _ _).leaves (fun e n run => rfl) fun v o run => ?_
  unfold Trades
  rw [bind_get]
  cases freed : o.memory.dealloc v.word.toNat with
  | error e => exact .of_eq rfl
  | ok memory => exact Exchange.relates_dealloc freed

theorem trades_store (m : Machine) : Trades (fun _ => .keep) store m := by
  unfold Trades
  cases run : store m with
  | error e n => exact .of_eq (spares_store m e n run)
  | ok a n =>
    obtain ⟨size, v, ptr, o, count, pops, -, -, rfl⟩ := run_store run
    rw [← pops.memory]
    exact o.keep_setBytes _ _

/-- Whatever an instruction does and however it ends, it exchanges the cells it should. -/
theorem trades_execute (i : Instruction) (m : Machine) :
    Trades i.op.exchange (execute i) m := by
  by_cases changes : i.op = .pushStr ∨ i.op = .alloc ∨ i.op = .dealloc ∨ i.op = .write
  · have acts : Trades i.op.exchange (effect i) m := by
      unfold effect
      obtain op | op | op | op := changes
      · rw [op]
        exact trades_pushString i m
      · rw [op]
        exact trades_allocate m
      · rw [op]
        exact trades_deallocate m
      · rw [op]
        exact trades_store m
    unfold Trades
    rw [execute_eq]
    · exact trades_bind_pure (f := fun _ => m.ip + 1) acts
    · obtain op | op | op | op := changes <;> rw [op] <;> rfl
    · obtain op | op | op | op := changes <;> rw [op] <;> decide
  · simp only [not_or] at changes
    obtain ⟨string, alloc, dealloc, store⟩ := changes
    have keeps : i.op.exchange = fun _ => .keep := by
      funext e
      unfold Op.exchange
      split <;> simp_all
    rw [keeps]
    exact trades_leaves (leaves_execute string alloc dealloc store)

end Exec

/-! ## Steps and runs -/

namespace Machine

variable {m n : Machine} {e : Option Fault}

theorem exchange_of_next {i : Instruction} (found : m.next? = some i) (e : Option Fault) :
    m.exchange e = i.op.exchange e := by
  unfold exchange
  rw [found]

/-- Without success, only a `push_str` without a slot exchanges a cell. -/
theorem exchange_of_fault {f : Fault} (changed : m.exchange (some f) ≠ .keep) :
    ∃ i, m.next? = some i ∧ i.op = .pushStr ∧ f = .stackOverflow := by
  unfold exchange at changed
  split at changed
  · rename_i i found
    unfold Op.exchange at changed
    split at changed
    · rename_i op none
      cases none
    · rename_i op none
      cases none
    · rename_i op overflow
      exact ⟨i, found, op, Option.some.inj overflow⟩
    · rename_i op none
      cases none
    · exact absurd rfl changed
  · exact absurd rfl changed

theorem relates_of_step (h : m.step = (e, n)) :
    (m.exchange e).Relates m.memory n.memory := by
  obtain ⟨-, rfl, rfl⟩ | ⟨i, found, -, outcome⟩ := executes_of_step h
  · have keeps : n.exchange (some .halted) = .keep := by
      refine Decidable.byContradiction fun changed => ?_
      obtain ⟨i, -, -, other⟩ := exchange_of_fault changed
      cases other
    rw [keeps]
    exact .of_eq rfl
  · have acts := Exec.trades_execute i m
    unfold Exec.Trades at acts
    rw [exchange_of_next found]
    obtain ⟨rfl, next, o, run, rfl⟩ | ⟨f, rfl, run⟩ := outcome
    · rw [run] at acts
      exact acts
    · rw [run] at acts
      exact acts

/-- A cell that is gained without success was made in front of a full stack, and nothing but
memory is another. -/
theorem full_of_fault {f : Fault} (h : m.step = (some f, n))
    (changed : m.exchange (some f) ≠ .keep) :
    f = .stackOverflow ∧ m.stack.free = [] ∧ n = { m with memory := n.memory } := by
  obtain ⟨i, found, op, rfl⟩ := exchange_of_fault changed
  obtain ⟨-, other, -⟩ | ⟨j, here, -, ⟨other, -⟩ | ⟨f, same, run⟩⟩ := executes_of_step h
  · cases other
  · cases other
  cases same
  obtain rfl : i = j := Option.some.inj (found.symm.trans here)
  have failed : Exec.pushString i m = .error .stackOverflow n := by
    rw [Exec.execute_eq (by rw [op]; rfl) (by rw [op]; decide)] at run
    unfold Exec.effect at run
    rw [op] at run
    exact Exec.error_of_bind_pure run
  exact ⟨rfl, Exec.full_of_pushString failed⟩

/-- The live cells of a run have numbers of their own, and every cell that was made is live or was
freed. -/
theorem conserved_of_runs {p : Program} {loader : Loader} {done : List Nat}
    (run : (start p loader).Runs done n) : n.memory.Numbered ∧ n.memory.Balanced := by
  generalize started : start p loader = m at run
  induction run with
  | refl =>
    subst started
    constructor
    · intro c live
      cases live
    · rfl
  | succeed _ h ih =>
    obtain ⟨numbered, balanced⟩ := ih
    have relates := relates_of_step h
    exact ⟨relates.numbered numbered, relates.balanced balanced⟩
  | fail _ h ih =>
    obtain ⟨numbered, balanced⟩ := ih
    have relates := relates_of_step h
    exact ⟨relates.numbered numbered, relates.balanced balanced⟩
  | add _ h ih =>
    rw [memory_of_addNative h]
    exact ih

/-- **Cells are conserved, but for a string without a slot.** On every machine, a step that
succeeds gains a cell if it is an `alloc` or a `push_str`, loses one if it is a `dealloc`, and keeps
the cells otherwise. A step that fails keeps them too, unless it is a `push_str` in front of a full
stack: that one gains the cell of the string, and changes nothing else. -/
theorem cells_of_step (h : m.step = (e, n)) :
    (m.exchange e).Relates m.memory n.memory ∧
      ∀ f, e = some f → m.exchange e ≠ .keep →
        f = .stackOverflow ∧ m.stack.free = [] ∧ n = { m with memory := n.memory } := by
  refine ⟨relates_of_step h, ?_⟩
  rintro f rfl changed
  exact full_of_fault h changed

/-- A machine with two cells in front of an instruction. -/
def stocked (op : Op) (stack : Stack) : Machine where
  program := { code := #[{ op }], strings := [[0x61]] }
  ip := 0
  halt := none
  stack := stack
  returns := []
  registers := .replicate 16 (.int 0)
  memory := ⟨[⟨1, 48, #[7]⟩, ⟨0, 16, #[5, 6]⟩], [], 2, 80⟩
  natives := #[.write, .exit]
  pending := none
  out := #[]
  err := #[]
  loader := .none

/-- A machine in front of a `dealloc` of its first cell. -/
def freeing : Machine :=
  stocked .dealloc ⟨[.ptr 16], List.replicate (stackCapacity - 1) (.int 0)⟩

theorem cells_of_step_freeing :
    ∃ n, freeing.step = (none, n) ∧ n.memory.cells = [⟨1, 48, #[7]⟩] ∧
      Exchange.lose.Relates freeing.memory n.memory := by
  refine ⟨_, rfl, rfl, ?_⟩
  exact (cells_of_step (m := freeing) (e := none) rfl).1

/-- A machine in front of a `push_str` that has no slot left. -/
def filled : Machine := stocked .pushStr ⟨List.replicate stackCapacity (.int 0), []⟩

/-- A full stack has no slot for the address of the string. -/
theorem cells_not_kept :
    ∃ n, filled.step = (some .stackOverflow, n) ∧ n.stack = filled.stack ∧
      n.stack.size = stackCapacity ∧ n.memory.cells.length = 3 ∧
      n.memory.extents ≠ filled.memory.extents := by
  refine ⟨_, rfl, rfl, List.length_replicate, rfl, ?_⟩
  decide

end Machine

end StackLang
