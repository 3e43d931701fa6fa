import StackLang.Proofs.Machine.Failure
import StackLang.Proofs.Machine.Flaws

/-!
# What a step does to the cells of memory

A step makes a cell, frees one, stores bytes or leaves memory alone. `Machine.filling?` says what
a cell that the next step makes starts with and `Machine.stored?` which byte the step stores at an
address, both read off the instruction and its operands. With these two `alters_of_step` tells the
cells after a step from the ones before it, and `Exec.run_store` and `Exec.run_fetch` tell what the
two instructions that move bytes do when they succeed.
-/

namespace StackLang

open Bytecode

/-! ## Bytes by their addresses -/

namespace Cell

/-- The cell with the bytes replaced at the addresses for which `stored` gives one. -/
def overwrite (stored : Nat → Option UInt8) (c : Cell) : Cell :=
  { c with bytes := c.bytes.mapIdx fun i b => (stored (c.base + i)).getD b }

variable {f g : Nat → Option UInt8} {c : Cell}

@[simp] theorem serial_overwrite : (c.overwrite f).serial = c.serial := rfl

@[simp] theorem base_overwrite : (c.overwrite f).base = c.base := rfl

@[simp] theorem size_overwrite : (c.overwrite f).size = c.size := by
  simp [overwrite, size]

@[simp] theorem owns_overwrite (address : Nat) :
    (c.overwrite f).owns address = c.owns address := by
  unfold owns
  rw [base_overwrite, size_overwrite]

theorem getElem?_overwrite (i : Nat) :
    (c.overwrite f).bytes[i]? = c.bytes[i]?.map fun b => (f (c.base + i)).getD b := by
  simp [overwrite]

theorem owns_iff {address : Nat} : c.owns address ↔ c.base ≤ address ∧ address < c.base + c.size := by
  simp [owns]

/-- Cells with the same number and address differ in a byte. -/
theorem ext_bytes {c d : Cell} (serial : c.serial = d.serial) (base : c.base = d.base)
    (bytes : ∀ i : Nat, c.bytes[i]? = d.bytes[i]?) : c = d := by
  obtain ⟨n, a, xs⟩ := c
  obtain ⟨n', a', ys⟩ := d
  cases serial
  cases base
  have same : xs = ys := Array.ext_getElem? bytes
  rw [same]

/-- Only the addresses of the cell matter. -/
theorem overwrite_congr (h : ∀ address, c.owns address → f address = g address) :
    c.overwrite f = c.overwrite g := by
  refine ext_bytes rfl rfl fun i => ?_
  rw [getElem?_overwrite, getElem?_overwrite]
  by_cases inside : i < c.bytes.size
  · have owned : c.owns (c.base + i) := by
      refine owns_iff.2 ⟨Nat.le_add_right _ _, ?_⟩
      unfold size
      omega
    rw [h _ owned]
  · rw [Array.getElem?_eq_none (Nat.not_lt.1 inside)]
    rfl

theorem overwrite_none : c.overwrite (fun _ => none) = c := by
  refine ext_bytes rfl rfl fun i => ?_
  rw [getElem?_overwrite]
  simp

theorem overwrite_of_none (h : ∀ address, c.owns address → f address = none) :
    c.overwrite f = c := by
  rw [overwrite_congr h, overwrite_none]

theorem map_overwrite_of_none {cells : List Cell}
    (h : ∀ c ∈ cells, ∀ address, c.owns address → f address = none) :
    cells.map (overwrite f) = cells :=
  (List.map_congr_left fun c live => overwrite_of_none (h c live)).trans (List.map_id cells)

/-- What is stored last counts. -/
theorem overwrite_overwrite :
    (c.overwrite f).overwrite g = c.overwrite fun address => (g address).or (f address) := by
  refine ext_bytes rfl rfl fun i => ?_
  simp only [getElem?_overwrite, base_overwrite, Option.map_map]
  congr 1
  funext b
  cases g (c.base + i) <;> rfl

end Cell

/-- The bytes by their addresses, if the first one is at `address`. -/
def bytesAt (address : Nat) (bytes : List UInt8) (a : Nat) : Option UInt8 :=
  if address ≤ a then bytes[a - address]? else none

theorem bytesAt_nil (address : Nat) : bytesAt address [] = fun _ => none := by
  funext a
  simp [bytesAt]

theorem bytesAt_cons (address : Nat) (b : UInt8) (rest : List UInt8) (a : Nat) :
    bytesAt address (b :: rest) a =
      (bytesAt (address + 1) rest a).or (if a = address then some b else none) := by
  unfold bytesAt
  by_cases first : a = address
  · subst first
    rw [if_pos (Nat.le_refl a), if_neg (by omega), Nat.sub_self, if_pos rfl]
    rfl
  · by_cases later : address ≤ a
    · have next : a - address = (a - (address + 1)) + 1 := by omega
      rw [if_pos later, if_pos (by omega), if_neg first, Option.or_none, next,
        List.getElem?_cons_succ]
    · rw [if_neg later, if_neg (by omega), if_neg first]
      rfl

theorem bounds_of_bytesAt {address a : Nat} {bytes : List UInt8} {b : UInt8}
    (h : bytesAt address bytes a = some b) : address ≤ a ∧ a < address + bytes.length := by
  unfold bytesAt at h
  split at h
  · have inside := (List.getElem?_eq_some_iff.1 h).1
    omega
  · cases h

theorem Memory.setByte_eq (m : Memory) (address : Nat) (b : UInt8) :
    m.setByte address b = { m with
      cells := m.cells.map (Cell.overwrite fun a => if a = address then some b else none) } := by
  unfold Memory.setByte
  congr 1
  refine List.map_congr_left fun c _ => ?_
  split
  · rename_i owned
    obtain ⟨low, high⟩ := Cell.owns_iff.1 owned
    refine Cell.ext_bytes rfl rfl fun i => ?_
    rw [Cell.getElem?_overwrite, Array.getElem?_setIfInBounds]
    by_cases here : address - c.base = i
    · have back : c.base + i = address := by omega
      have inside : i < c.bytes.size := by
        unfold Cell.size at high
        omega
      simp [here, back, inside]
    · have other : c.base + i ≠ address := by omega
      simp [here, other]
  · rename_i free
    refine (Cell.overwrite_of_none fun a owned => ?_).symm
    rw [if_neg]
    rintro rfl
    exact free owned

theorem Memory.shrinks_dealloc {memory memory' : Memory} {address : Nat}
    (h : memory.dealloc address = .ok memory') :
    memory'.cells.Sublist memory.cells ∧ memory'.made = memory.made ∧
      memory'.next = memory.next := by
  unfold Memory.dealloc at h
  split at h
  · cases h
  · cases h
    exact ⟨List.eraseP_sublist, rfl, rfl⟩

namespace Machine

/-- No cell reaches the slots of the operand stack. -/
def Low (m : Machine) : Prop := ∀ c ∈ m.memory.cells, c.base + c.size ≤ Memory.limit

theorem limit_le_stackAddress : Memory.limit ≤ stackAddress := by
  decide

theorem Low.ownsSlot {m : Machine} (low : m.Low) {c : Cell} (live : c ∈ m.memory.cells)
    {address : Nat} (owned : c.owns address) : m.ownsSlot address = false := by
  have below := low c live
  have gap := limit_le_stackAddress
  have inside := (Cell.owns_iff.1 owned).2
  unfold Machine.ownsSlot
  rw [Bool.and_eq_false_iff]
  left
  rw [decide_eq_false_iff_not]
  omega

/-- Bytes that are stored change the cells that own their addresses. -/
theorem memory_setBytes {m : Machine} (low : m.Low) (address : Nat) (bytes : List UInt8) :
    (m.setBytes address bytes).memory =
      { m.memory with cells := m.memory.cells.map (Cell.overwrite (bytesAt address bytes)) } := by
  induction bytes generalizing m address with
  | nil =>
    rw [bytesAt_nil, Cell.map_overwrite_of_none fun _ _ _ _ => rfl]
    rfl
  | cons b rest ih =>
    have first : (m.setByte address b).memory = { m.memory with
        cells := m.memory.cells.map
          (Cell.overwrite fun a => if a = address then some b else none) } := by
      rw [← Memory.setByte_eq]
      unfold setByte
      split
      · rename_i slot
        -- A byte of a slot is in no cell, so the cells are the same.
        rw [Memory.setByte_eq, Cell.map_overwrite_of_none]
        intro c live a owned
        rw [if_neg]
        rintro rfl
        rw [low.ownsSlot live owned] at slot
        cases slot
      · rfl
    have lowAfter : (m.setByte address b).Low := by
      intro c live
      rw [first] at live
      obtain ⟨d, old, rfl⟩ := List.mem_map.1 live
      simpa using low d old
    have both : (Cell.overwrite (bytesAt (address + 1) rest) ∘
        Cell.overwrite fun a => if a = address then some b else none) =
          Cell.overwrite (bytesAt address (b :: rest)) := by
      funext c
      rw [Function.comp_apply, Cell.overwrite_overwrite]
      congr 1
      funext a
      rw [bytesAt_cons]
    rw [setBytes, ih lowAfter, first, List.map_map, both]

/-- Bytes that are stored in no slot leave everything but memory alone. -/
theorem setBytes_eq {m : Machine} {address : Nat} {bytes : List UInt8}
    (outside : address + bytes.length ≤ stackAddress) :
    m.setBytes address bytes = { m with memory := (m.setBytes address bytes).memory } := by
  induction bytes generalizing m address with
  | nil => rfl
  | cons b rest ih =>
    rw [List.length_cons] at outside
    have free : m.ownsSlot address = false := by
      unfold Machine.ownsSlot
      rw [Bool.and_eq_false_iff]
      left
      rw [decide_eq_false_iff_not]
      omega
    have first : m.setByte address b = { m with memory := m.memory.setByte address b } := by
      unfold setByte
      rw [free, if_neg Bool.false_ne_true]
    rw [setBytes, ih (by omega), first]

/-! ## What a step makes and stores -/

/-- The bytes that a cell starts with if the next step makes one. -/
def filling? (m : Machine) : Option (List UInt8) :=
  m.next?.bind fun i =>
    match i.op, m.stack.live with
    | .alloc, size :: _ => some (List.replicate size.word.toInt.toNat 0)
    | .pushStr, _ => (m.program.string? i).map (· ++ [0])
    | _, _ => none

/-- The byte that the next step stores at an address, if it is a `write` that succeeds. -/
def stored? (m : Machine) (address : Nat) : Option UInt8 :=
  match m.step.1, m.next?.map Instruction.op, m.stack.live with
  | none, some .write, size :: v :: ptr :: _ =>
    bytesAt ptr.word.toNat (v.word.toBytes.take size.word.toInt.toNat) address
  | _, _, _ => none

/-- What a step of `m` can make of its memory: bytes are stored and a cell may be freed, or a cell
is made, at an address that the allocator chooses. -/
inductive Alters (m : Machine) (memory : Memory) : Prop where
  | keep (cells : memory.cells.Sublist (m.memory.cells.map (Cell.overwrite m.stored?)))
      (made : memory.made = m.memory.made) (next : memory.next = m.memory.next)
  | make {base : Nat} {bytes : Array UInt8} (content : m.filling? = some bytes.toList)
      (cells : memory.cells = ⟨m.memory.made, base, bytes⟩ :: m.memory.cells)
      (made : memory.made = m.memory.made + 1) (low : base + bytes.size ≤ Memory.limit)
      (place : bytes.size = 0 ∨ base = m.memory.next ∧ base + bytes.size ≤ memory.next)
      (next : m.memory.next ≤ memory.next)

variable {m n : Machine}

theorem stored?_of_fault {e : Fault} (h : m.step = (some e, n)) (address : Nat) :
    m.stored? address = none := by
  unfold stored?
  rw [h]

theorem stored?_of_op {i : Instruction} (found : m.next? = some i) (op : i.op ≠ .write)
    (address : Nat) : m.stored? address = none := by
  unfold stored?
  rw [found, Option.map_some]
  split
  · rename_i _ same _
    exact absurd (Option.some.inj same) op
  · rfl

/-- A step that makes a cell stores nothing. -/
theorem stored?_of_filling {bytes : List UInt8} (h : m.filling? = some bytes) (address : Nat) :
    m.stored? address = none := by
  unfold filling? at h
  obtain ⟨i, found, made⟩ := Option.bind_eq_some_iff.1 h
  refine stored?_of_op found ?_ address
  intro op
  rw [op] at made
  cases made

theorem Alters.refl (quiet : ∀ address, m.stored? address = none) {memory : Memory}
    (cells : memory.cells.Sublist m.memory.cells) (made : memory.made = m.memory.made)
    (next : memory.next = m.memory.next) : m.Alters memory := by
  refine .keep ?_ made next
  rwa [Cell.map_overwrite_of_none fun _ _ address _ => quiet address]

end Machine

/-! ## Actions that leave memory alone -/

theorem Machine.memory_of_addNative {m n : Machine} {f : Native} {index : Nat}
    (h : m.addNative f = .ok (index, n)) : n.memory = m.memory := by
  unfold addNative at h
  split at h
  · cases h
  · cases h
    rfl

namespace Exec

variable {α β : Type} {k : Nat} {m : Machine}

theorem Ends.imp {x : Exec α} {P Q : Machine → Prop} (h : x.Ends m P) (imp : ∀ n, P n → Q n) :
    x.Ends m Q := by
  unfold Ends at h ⊢
  split
  · rename_i run
    rw [run] at h
    exact imp _ h
  · rename_i run
    rw [run] at h
    exact imp _ h

theorem Ends.bind {x : Exec α} {f : α → Exec β} {P Q : Machine → Prop} (h : x.Ends m P)
    (stop : ∀ n, P n → Q n) (rest : ∀ a n, x m = .ok a n → (f a).Ends n Q) :
    (x >>= f).Ends m Q := by
  cases run : x m with
  | error e n =>
    unfold Ends
    rw [bind_of_error run]
    exact stop n (h.of_error run)
  | ok a n =>
    have more := rest a n run
    unfold Ends at more ⊢
    rwa [bind_of_ok run]

/-- An action that leaves memory alone. -/
def Leaves (x : Exec α) : Prop := ∀ m, x.Ends m fun n => n.memory = m.memory

theorem Takes.leaves {x : Exec α} (h : Takes k x) : Leaves x :=
  fun m => (h m).imp fun _ spent => spent.memory

theorem leaves_bind {x : Exec α} {f : α → Exec β} (hx : Leaves x) (hf : ∀ a, Leaves (f a)) :
    Leaves (x >>= f) := by
  intro m
  refine (hx m).bind (fun _ same => same) fun a n run => ?_
  have same := (hx m).of_ok run
  exact (hf a n).imp fun _ more => more.trans same

theorem leaves_pure (a : α) : Leaves (pure a) := fun _ => rfl

theorem leaves_throw (e : Fault) : Leaves (throw e : Exec α) := fun _ => rfl

theorem leaves_get : Leaves (get : Exec Machine) := fun _ => rfl

theorem leaves_get_bind {f : Machine → Exec α}
    (h : ∀ m : Machine, (f m).Ends m fun n => n.memory = m.memory) : Leaves (get >>= f) := h

theorem leaves_modify {f : Machine → Machine} (h : ∀ m : Machine, (f m).memory = m.memory) :
    Leaves (modify f : Exec Unit) := h

theorem leaves_ite {p : Prop} [Decidable p] {x y : Exec α} (hx : Leaves x) (hy : Leaves y) :
    Leaves (if p then x else y) := by
  split
  · exact hx
  · exact hy

/-- An action that exchanges the stack or fails. -/
theorem leaves_stack (f : Stack → Except Fault Stack) : Leaves (do
    let m ← get
    match f m.stack with
    | .ok stack => set { m with stack }
    | .error e => throw e : Exec Unit) := by
  intro m
  unfold Ends
  rw [bind_get]
  cases f m.stack with
  | ok stack => rfl
  | error e => rfl

theorem leaves_push (v : Value) : Leaves (push v) := leaves_stack fun s => s.push v

theorem leaves_retag (tag : Tag) : Leaves (retag tag) := leaves_stack fun s => s.retag tag

theorem leaves_swap (i j : Nat) : Leaves (swap i j) := leaves_stack fun s => s.swap i j

theorem leaves_binary (f : Value → Value → Except Fault Value) : Leaves (binary f) := by
  refine leaves_bind takes_pop.leaves fun b => leaves_bind takes_pop.leaves fun a => ?_
  split
  · exact leaves_push _
  · exact leaves_throw _

theorem leaves_unary (f : Value → Value) : Leaves (unary f) :=
  leaves_bind takes_pop.leaves fun _ => leaves_push _

theorem leaves_pushOperand (i : Instruction) : Leaves (pushOperand i) :=
  leaves_ite
    (leaves_bind (takes_register i).leaves fun _ => leaves_bind leaves_get fun _ => leaves_push _)
    (leaves_push _)

theorem leaves_load (i : Instruction) : Leaves (load i) := by
  refine leaves_bind (takes_register i).leaves fun r => ?_
  have stored (v : Value) :
      Leaves (modify fun m => { m with registers := m.registers.set r v } : Exec Unit) :=
    leaves_modify fun _ => rfl
  split
  · exact leaves_bind takes_top.leaves stored
  · exact leaves_bind (leaves_pure _) stored

theorem leaves_reference : Leaves reference :=
  leaves_bind leaves_get fun _ => leaves_ite (leaves_throw _) (leaves_push _)

theorem leaves_dereference : Leaves dereference := by
  refine leaves_bind takes_top.leaves fun v => leaves_ite (leaves_throw _) ?_
  refine leaves_bind leaves_get fun m => ?_
  dsimp only
  split
  · exact leaves_push _
  · exact leaves_throw _

theorem leaves_fetch : Leaves fetch := by
  refine leaves_bind (takes_popTyped _ _).leaves fun code => ?_
  refine leaves_bind takes_pop.leaves fun size => leaves_ite (leaves_throw _) ?_
  refine leaves_bind (takes_byteCount _).leaves fun count => ?_
  refine leaves_bind (takes_popAddress _).leaves fun address => ?_
  split
  · exact leaves_bind leaves_get fun _ => leaves_push _
  · exact leaves_throw _

theorem leaves_callForeign (f : Interaction) : Leaves (callForeign f) := by
  intro m
  unfold Ends callForeign
  rw [bind_get]
  cases f.run m.stack m.pending with
  | mk stack pending =>
    cases pending with
    | none => rfl
    | some e => rfl

theorem leaves_callNative (index : Int) : Leaves (callNative index) := by
  refine leaves_bind leaves_get fun m => ?_
  dsimp only
  generalize (if 0 ≤ index then m.natives[index.toNat]? else none) = found
  cases found with
  | none => exact leaves_throw _
  | some f =>
    cases f with
    | write =>
      refine leaves_bind takes_pop.leaves fun stream => ?_
      refine leaves_bind (takes_popText _).leaves fun text => ?_
      exact leaves_ite (leaves_modify fun _ => rfl)
        (leaves_ite (leaves_modify fun _ => rfl) (leaves_throw _))
    | exit => exact leaves_bind takes_pop.leaves fun _ => leaves_modify fun _ => rfl
    | haltWith code => exact leaves_modify fun _ => rfl
    | failWith fault => exact leaves_throw _
    | foreign f => exact leaves_callForeign f

theorem leaves_loadLibrary : Leaves loadLibrary := by
  refine leaves_bind (takes_popText _).leaves fun library => ?_
  refine leaves_bind (takes_popText _).leaves fun symbol => leaves_get_bind fun m => ?_
  split
  · exact leaves_throw (α := Unit) _ m
  split
  · exact leaves_throw (α := Unit) _ m
  split
  · rename_i added
    exact Machine.memory_of_addNative added
  · exact leaves_throw (α := Unit) _ m

/-- Only four instructions change memory. -/
theorem leaves_effect {i : Instruction} (string : i.op ≠ .pushStr) (alloc : i.op ≠ .alloc)
    (dealloc : i.op ≠ .dealloc) (store : i.op ≠ .write) : Leaves (effect i) := by
  unfold effect
  cases op : i.op with
  | pushStr => exact absurd op string
  | alloc => exact absurd op alloc
  | dealloc => exact absurd op dealloc
  | write => exact absurd op store
  | push => exact leaves_pushOperand i
  | mov => exact leaves_load i
  | ref => exact leaves_reference
  | deref => exact leaves_dereference
  | read => exact leaves_fetch
  | pop => exact leaves_bind takes_pop.leaves fun _ => leaves_pure _
  | dup => exact leaves_bind takes_top.leaves fun _ => leaves_push _
  | indup =>
    refine leaves_bind takes_popIndex.leaves fun index => leaves_bind leaves_get fun m => ?_
    split
    · exact leaves_push _
    · exact leaves_throw _
  | swap => exact leaves_bind leaves_get fun _ => leaves_ite (leaves_throw _) (leaves_swap _ _)
  | inswap =>
    exact leaves_bind takes_popIndex.leaves fun _ => leaves_bind leaves_get fun _ =>
      leaves_swap _ _
  | itof | ftoi | itoc => exact leaves_unary _
  | toi | tof | toc | tovp => exact leaves_retag _
  | print => exact leaves_bind takes_pop.leaves fun _ => leaves_modify fun _ => rfl
  | native => exact leaves_callNative _
  | entrypoint => exact leaves_throw _
  | loadLib => exact leaves_loadLibrary
  | ss => exact leaves_bind leaves_get fun _ => leaves_push _
  | halt => exact leaves_modify fun _ => rfl
  | nop | call | ret | jmp | zjmp | nzjmp => exact leaves_pure _
  | _ => exact leaves_binary _

/-- An instruction that does not choose the next one is its effect. -/
theorem execute_eq {i : Instruction} (jump : i.op.isJump = false) (ret : i.op ≠ .ret) :
    execute i m = (do
      effect i
      return m.ip + 1 : Exec Nat) m := by
  unfold execute
  rw [bind_get]
  cases op : i.op with
  | call | jmp | zjmp | nzjmp =>
    rw [op] at jump
    cases jump
  | ret => exact absurd op ret
  | _ => rfl

theorem leaves_execute {i : Instruction} (string : i.op ≠ .pushStr) (alloc : i.op ≠ .alloc)
    (dealloc : i.op ≠ .dealloc) (store : i.op ≠ .write) : Leaves (execute i) := by
  refine leaves_bind leaves_get fun before => ?_
  have acts := leaves_effect string alloc dealloc store
  cases op : i.op with
  | call =>
    refine leaves_bind (takes_jumpTarget i).leaves fun target => leaves_bind leaves_get fun m => ?_
    refine leaves_ite (leaves_throw _) ?_
    exact leaves_bind (leaves_modify fun _ => rfl) fun _ => leaves_pure _
  | ret =>
    refine leaves_get_bind fun m => ?_
    split
    · exact leaves_throw (α := Nat) _ m
    · exact Eq.refl m.memory
  | jmp => exact (takes_jumpTarget i).leaves
  | zjmp | nzjmp =>
    exact leaves_bind (takes_jumpTarget i).leaves fun target =>
      leaves_bind takes_pop.leaves fun _ => leaves_pure _
  | _ => exact leaves_bind acts fun _ => leaves_pure _

/-! ## The four instructions that change memory -/

/-- A cell is made if memory has room, whether or not its address fits on the stack. -/
theorem ends_pushCell (made : Memory → Except Fault (Nat × Memory)) (m : Machine) :
    (pushCell made).Ends m fun n =>
      n.memory = m.memory ∨ ∃ address, made m.memory = .ok (address, n.memory) := by
  unfold Ends pushCell
  rw [bind_get]
  cases cell : made m.memory with
  | error e => exact .inl rfl
  | ok result =>
    obtain ⟨address, memory⟩ := result
    have pushed := leaves_push (.ptr address) { m with memory }
    refine (pushed.imp fun n same => ?_ : (push (.ptr address)).Ends { m with memory } _)
    exact .inr ⟨address, by rw [same]⟩

theorem ends_pushString (i : Instruction) (m : Machine) :
    (pushString i).Ends m fun n => n.memory = m.memory ∨
      ∃ text address, m.program.string? i = some text ∧
        m.memory.allocText text = .ok (address, n.memory) := by
  unfold pushString
  refine (leaves_get m).bind (fun _ => .inl) fun m' n run => ?_
  cases run
  dsimp only
  unfold Program.string?
  generalize (if 0 ≤ i.value.toInt then m.program.strings[i.value.toInt.toNat]? else none) = found
  cases found with
  | none => exact .inl rfl
  | some text =>
    refine (ends_pushCell _ m).imp fun n made => ?_
    obtain same | ⟨address, made⟩ := made
    · exact .inl same
    · exact .inr ⟨text, address, rfl, made⟩

section Operands

variable {n : Machine} {v : Value}

theorem pop_of_live {live : List Value} (top : m.stack.live = v :: live) :
    pop m = .ok v { m with stack := ⟨live, v :: m.stack.free⟩ } := by
  unfold pop
  rw [bind_get, Stack.pop, top]
  rfl

theorem push_of_free {slot : Value} {free : List Value} (room : m.stack.free = slot :: free) :
    push v m = .ok () { m with stack := ⟨v :: m.stack.live, free⟩ } := by
  unfold push
  rw [bind_get, Stack.push, room]
  rfl

theorem run_pop (run : pop m = .ok v n) : m.Pops [v] n := by
  unfold pop at run
  rw [bind_get] at run
  cases popped : m.stack.pop with
  | error e =>
    rw [popped] at run
    cases run
  | ok result =>
    rw [popped] at run
    cases run
    exact ⟨rfl, (Stack.pop_eq_ok_iff.1 popped).1⟩

theorem run_popTyped {op : Op} {tag : Tag} (run : popTyped op tag m = .ok v n) :
    m.Pops [v] n ∧ v.tag = tag := by
  obtain ⟨w, o, popped, checked⟩ := exists_of_bind run
  split at checked
  · rename_i typed
    cases checked
    exact ⟨run_pop popped, typed⟩
  · cases checked

theorem run_popAddress {op : Op} {address : Nat} (run : popAddress op m = .ok address n) :
    ∃ ptr, m.Pops [ptr] n ∧ ptr.tag = .ptr ∧ ptr.word.toNat = address := by
  obtain ⟨ptr, o, popped, checked⟩ := exists_of_bind run
  obtain ⟨pops, typed⟩ := run_popTyped popped
  dsimp only at checked
  split at checked
  · cases checked
  · cases checked
    exact ⟨ptr, pops, typed, rfl⟩

theorem run_byteCount {size : Value} {count : Nat} (run : byteCount size m = .ok count n) :
    n = m ∧ size.word.toInt = count ∧ count ≤ 8 := by
  unfold byteCount at run
  split at run
  · cases run
  split at run
  · cases run
  · cases run
    exact ⟨rfl, by omega, by omega⟩

end Operands

theorem ends_allocate (m : Machine) :
    allocate.Ends m fun n => n.memory = m.memory ∨
      ∃ size rest address, m.stack.live = size :: rest ∧
        m.memory.alloc size.word.toInt.toNat = .ok (address, n.memory) := by
  unfold allocate
  refine ((takes_popTyped _ _).leaves m).bind (fun _ => .inl) fun size o run => ?_
  obtain ⟨pops, -⟩ := run_popTyped run
  dsimp only
  split
  · exact .inl pops.memory
  · refine (ends_pushCell _ o).imp fun n made => ?_
    rw [pops.memory] at made
    obtain same | ⟨address, made⟩ := made
    · exact .inl same
    · exact .inr ⟨size, o.stack.live, address, pops.values, made⟩

theorem ends_deallocate (m : Machine) :
    deallocate.Ends m fun n => n.memory.cells.Sublist m.memory.cells ∧
      n.memory.made = m.memory.made ∧ n.memory.next = m.memory.next := by
  unfold deallocate
  refine ((takes_popTyped _ _).leaves m).bind ?_ fun v o run => ?_
  · intro n same
    rw [same]
    exact ⟨List.Sublist.refl _, rfl, rfl⟩
  · obtain ⟨pops, -⟩ := run_popTyped run
    rw [← pops.memory]
    unfold Ends
    rw [bind_get]
    dsimp only
    cases freed : o.memory.dealloc v.word.toNat with
    | error e => exact ⟨List.Sublist.refl _, rfl, rfl⟩
    | ok memory => exact Memory.shrinks_dealloc freed

/-- A `write` that succeeds has taken a size, a value and an address. -/
theorem run_store {n : Machine} (run : store m = .ok () n) :
    ∃ size v ptr o, ∃ count : Nat, m.Pops [size, v, ptr] o ∧ size.word.toInt = count ∧ count ≤ 8 ∧
      n = o.setBytes ptr.word.toNat (v.word.toBytes.take count) := by
  obtain ⟨size, m1, first, run⟩ := exists_of_bind run
  obtain ⟨v, m2, second, run⟩ := exists_of_bind run
  split at run
  · cases run
  obtain ⟨count, m3, counted, run⟩ := exists_of_bind run
  obtain ⟨address, m4, third, run⟩ := exists_of_bind run
  cases run
  obtain ⟨rfl, few, small⟩ := run_byteCount counted
  obtain ⟨ptr, pops, -, rfl⟩ := run_popAddress third
  have both := ((run_pop first).trans (run_pop second)).trans pops
  exact ⟨size, v, ptr, m4, count, both, few, small, rfl⟩

/-- A `read` that succeeds has taken the code of a tag, a size and an address. -/
theorem run_fetch {n : Machine} (run : fetch m = .ok () n) :
    ∃ code size ptr o tag, ∃ count : Nat, m.Pops [code, size, ptr] o ∧
      size.word.toInt = count ∧ count ≤ 8 ∧ Tag.ofInt? code.word.toInt = some tag ∧
      n = { o with stack := n.stack } ∧
      n.stack.live = ⟨.ofBytes ((o.bytesFrom ptr.word.toNat).take count), tag⟩ :: o.stack.live := by
  obtain ⟨code, m1, first, run⟩ := exists_of_bind run
  obtain ⟨size, m2, second, run⟩ := exists_of_bind run
  dsimp only at run
  split at run
  · cases run
  obtain ⟨count, m3, counted, run⟩ := exists_of_bind run
  obtain ⟨address, m4, third, run⟩ := exists_of_bind run
  obtain ⟨rfl, few, small⟩ := run_byteCount counted
  obtain ⟨ptr, pops, -, rfl⟩ := run_popAddress third
  have both := ((run_popTyped first).1.trans (run_pop second)).trans pops
  cases known : Tag.ofInt? code.word.toInt with
  | none =>
    rw [known] at run
    cases run
  | some tag =>
  rw [known] at run
  obtain ⟨m5, m6, read, run⟩ := exists_of_bind run
  cases read
  refine ⟨code, size, ptr, m4, tag, count, both, few, small, known, ?_⟩
  unfold push at run
  rw [bind_get] at run
  generalize pushed : m4.stack.push _ = result at run
  cases result with
  | error e => cases run
  | ok stack =>
    cases run
    obtain ⟨_, -, live⟩ := Stack.push_eq_ok_iff.1 pushed
    exact ⟨rfl, live⟩

/-- An action that leaves memory alone when it fails. -/
def Spares (x : Exec α) : Prop := ∀ m e n, x m = .error e n → n.memory = m.memory

theorem spares_bind {x : Exec α} {f : α → Exec β} (hx : Leaves x) (hf : ∀ a, Spares (f a)) :
    Spares (x >>= f) := by
  intro m e n run
  cases first : x m with
  | error e' o =>
    rw [bind_of_error first] at run
    cases run
    exact (hx m).of_error first
  | ok a o =>
    rw [bind_of_ok first] at run
    have same := (hx m).of_ok first
    exact (hf a o e n run).trans same

theorem spares_store : Spares store := by
  refine spares_bind takes_pop.leaves fun size => spares_bind takes_pop.leaves fun v => ?_
  split
  · intro m e n run
    cases run
    rfl
  refine spares_bind (takes_byteCount _).leaves fun count => ?_
  refine spares_bind (takes_popAddress _).leaves fun address => ?_
  intro m e n run
  cases run

theorem spares_bind_pure {x : Exec α} (hx : Spares x) (b : β) : Spares (do
    let _ ← x
    return b) := by
  intro m e n run
  cases first : x m with
  | error e' o =>
    rw [bind_of_error first] at run
    cases run
    exact hx m e _ first
  | ok a o =>
    rw [bind_of_ok first] at run
    cases run

theorem spares_effect {i : Instruction} (op : i.op = .write) : Spares (effect i) := by
  unfold effect
  rw [op]
  exact spares_store

end Exec

/-! ## Steps -/

theorem Memory.made_of_allocBytes {memory memory' : Memory} {bytes : Array UInt8} {base : Nat}
    (h : memory.allocBytes bytes = .ok (base, memory')) :
    memory'.cells = ⟨memory.made, base, bytes⟩ :: memory.cells ∧
      memory'.made = memory.made + 1 ∧ base + bytes.size ≤ limit ∧
      (bytes.size = 0 ∨ base = memory.next ∧ base + bytes.size ≤ memory'.next) ∧
      memory.next ≤ memory'.next := by
  unfold Memory.allocBytes at h
  split at h
  · rename_i empty
    cases h
    refine ⟨rfl, rfl, ?_, .inl empty, Nat.le_refl _⟩
    rw [empty]
    decide
  · dsimp only at h
    split at h
    · cases h
    · rename_i room
      cases h
      unfold gap at room ⊢
      exact ⟨rfl, rfl, by omega, .inr ⟨rfl, by dsimp only; omega⟩, by dsimp only; omega⟩

namespace Machine

variable {m n : Machine}

/-- What holds of memory before a step and after the instruction has been executed. -/
theorem memory_of_step {P : Memory → Prop} {e : Option Fault} (h : m.step = (e, n))
    (same : P m.memory)
    (executed : ∀ i, m.next? = some i → (Exec.execute i).Ends m fun o => P o.memory) :
    P n.memory := by
  cases e with
  | none =>
    obtain ⟨i, next, o, found, -, run, rfl⟩ := exists_execute_of_step h
    have ends := (executed i found).of_ok run
    exact ends
  | some e =>
    obtain rfl | ⟨i, found, run⟩ := exists_execute_of_fault h
    · exact same
    · exact (executed i found).of_error run

/-- What the effect of an instruction gives, a step gives that executes the instruction. -/
theorem step_of_effect {i : Instruction} (found : m.next? = some i) (halt : m.halt = none)
    (jump : i.op.isJump = false) (ret : i.op ≠ .ret) :
    m.step =
      match Exec.effect i m with
      | .ok _ o => (none, { o with ip := m.ip + 1 })
      | .error e o => (some e, o) := by
  have executed := Exec.execute_eq (m := m) jump ret
  cases acted : Exec.effect i m with
  | ok _ o => exact step_of_execute found halt (executed.trans (Exec.bind_of_ok acted))
  | error e o =>
    rw [Exec.bind_of_error acted] at executed
    unfold step
    rw [Exec.step_inside found halt, Exec.bind_of_error executed]

/-- A step that succeeds has the effect of its instruction. -/
theorem exists_effect_of_step (h : m.step = (none, n)) {i : Instruction} (found : m.next? = some i)
    (jump : i.op.isJump = false) (ret : i.op ≠ .ret) :
    ∃ o, Exec.effect i m = .ok () o ∧ n = { o with ip := m.ip + 1 } := by
  obtain ⟨j, next, o, here, -, run, rfl⟩ := exists_execute_of_step h
  rw [found] at here
  cases here
  rw [Exec.execute_eq jump ret] at run
  obtain ⟨_, _, acted, last⟩ := Exec.exists_of_bind run
  cases last
  exact ⟨_, acted, rfl⟩

/-- What an instruction that does not choose the next one makes of memory, its effect does. -/
theorem memory_of_effect {P : Memory → Prop} {e : Option Fault} (h : m.step = (e, n))
    (same : P m.memory) {i : Instruction} (found : m.next? = some i)
    (jump : i.op.isJump = false) (ret : i.op ≠ .ret)
    (acted : (Exec.effect i).Ends m fun o => P o.memory) : P n.memory := by
  refine memory_of_step h same fun j here => ?_
  rw [found] at here
  cases here
  unfold Exec.Ends
  rw [Exec.execute_eq jump ret]
  exact acted.bind (fun _ => id) fun _ o run => acted.of_ok run

/-- A `write` that succeeds has taken a size, a value and an address, and stores that many bytes
of the value there. -/
theorem run_write (h : m.step = (none, n)) {i : Instruction} (found : m.next? = some i)
    (op : i.op = .write) :
    ∃ size v ptr o, ∃ count : Nat, m.Pops [size, v, ptr] o ∧ size.word.toInt = count ∧ count ≤ 8 ∧
      n = { o.setBytes ptr.word.toNat (v.word.toBytes.take count) with ip := m.ip + 1 } ∧
      m.stored? = bytesAt ptr.word.toNat (v.word.toBytes.take count) := by
  obtain ⟨o', acted, rfl⟩ := exists_effect_of_step h found (by simp [op, Op.isJump]) (by simp [op])
  have stored : Exec.store m = .ok () o' := by
    unfold Exec.effect at acted
    rwa [op] at acted
  obtain ⟨size, v, ptr, o, count, pops, few, small, rfl⟩ := Exec.run_store stored
  refine ⟨size, v, ptr, o, count, pops, few, small, rfl, ?_⟩
  funext address
  unfold stored?
  rw [h, found, pops.values, Option.map_some, op]
  change bytesAt ptr.word.toNat (v.word.toBytes.take size.word.toInt.toNat) address = _
  rw [few, Int.toNat_natCast]

theorem alters_of_write {e : Option Fault} (h : m.step = (e, n)) (low : m.Low) {i : Instruction}
    (found : m.next? = some i) (op : i.op = .write) : m.Alters n.memory := by
  cases e with
  | none =>
    obtain ⟨size, v, ptr, o, count, pops, few, small, rfl, stored⟩ := run_write h found op
    have lowAfter : o.Low := by
      intro c live
      rw [pops.memory] at live
      exact low c live
    have memory := memory_setBytes lowAfter ptr.word.toNat (v.word.toBytes.take count)
    dsimp only
    rw [memory, pops.memory, ← stored]
    exact .keep (List.Sublist.refl _) rfl rfl
  | some e =>
    have unchanged : n.memory = m.memory := by
      obtain rfl | ⟨j, here, run⟩ := exists_execute_of_fault h
      · rfl
      rw [found] at here
      cases here
      rw [Exec.execute_eq (by simp [op, Op.isJump]) (by simp [op])] at run
      have spares := Exec.spares_bind_pure (Exec.spares_effect op) (m.ip + 1)
      exact spares m e n run
    rw [unchanged]
    exact .refl (stored?_of_fault h) (List.Sublist.refl _) rfl rfl

/-- **What a step makes of memory.** -/
theorem alters_of_step {e : Option Fault} (h : m.step = (e, n)) (low : m.Low) :
    m.Alters n.memory := by
  cases found : m.next? with
  | none =>
    have quiet (address : Nat) : m.stored? address = none := by
      unfold stored?
      rw [found, Option.map_none]
      split
      · rename_i _ same _
        cases same
      · rfl
    refine memory_of_step h (.refl quiet (List.Sublist.refl _) rfl rfl) fun i here => ?_
    rw [found] at here
    cases here
  | some i =>
    by_cases store : i.op = .write
    · exact alters_of_write h low found store
    have quiet := stored?_of_op found store
    have same : m.Alters m.memory := .refl quiet (List.Sublist.refl _) rfl rfl
    by_cases string : i.op = .pushStr
    · refine memory_of_effect h same found (by simp [string, Op.isJump]) (by simp [string]) ?_
      have acts := Exec.ends_pushString i m
      unfold Exec.effect
      rw [string]
      refine acts.imp fun o made => ?_
      obtain unchanged | ⟨text, address, known, made⟩ := made
      · rwa [unchanged]
      · obtain ⟨cells, count, below, place, next⟩ := Memory.made_of_allocBytes made
        refine .make ?_ cells count below place next
        unfold filling?
        rw [found, Option.bind_some, string]
        simp [known]
    by_cases alloc : i.op = .alloc
    · refine memory_of_effect h same found (by simp [alloc, Op.isJump]) (by simp [alloc]) ?_
      have acts := Exec.ends_allocate m
      unfold Exec.effect
      rw [alloc]
      refine acts.imp fun o made => ?_
      obtain unchanged | ⟨size, rest, address, top, made⟩ := made
      · rwa [unchanged]
      · unfold Memory.alloc at made
        split at made
        · cases made
        obtain ⟨cells, count, below, place, next⟩ := Memory.made_of_allocBytes made
        refine .make ?_ cells count below place next
        unfold filling?
        rw [found, Option.bind_some, alloc, top]
        simp
    by_cases dealloc : i.op = .dealloc
    · refine memory_of_effect h same found (by simp [dealloc, Op.isJump]) (by simp [dealloc]) ?_
      have acts := Exec.ends_deallocate m
      unfold Exec.effect
      rw [dealloc]
      refine acts.imp fun o freed => ?_
      obtain ⟨cells, made, next⟩ := freed
      exact .refl quiet cells made next
    · refine memory_of_step h same fun j here => ?_
      rw [found] at here
      cases here
      refine (Exec.leaves_execute string alloc dealloc store m).imp fun o unchanged => ?_
      rwa [unchanged]

end Machine

end StackLang
