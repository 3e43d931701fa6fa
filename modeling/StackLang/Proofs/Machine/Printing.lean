import Mathlib.Data.List.TakeWhile
import StackLang.Proofs.Machine.ByteStore

/-!
# Strings print as they are stored

A string of the table reaches the output through a copy in memory: `push_str` makes a cell of its
bytes with a zero behind them and leaves the address on the stack, and the native function `write`
searches from that address on for a zero. `Memory.HoldsText` says where the search ends and that it
has met bytes of one cell only. A cell that was made for a string always ends it, whatever the
string holds, since the zero behind the string is in the cell too.
-/

namespace StackLang

open Bytecode

/-! ## The search for the end of a text -/

/-- The search for a zero from `address` on reads bytes of the cell `c` only: those of `text`, of
which none is zero, and a zero behind them. -/
structure Memory.HoldsText (m : Memory) (c : Cell) (address : Nat) (text : List UInt8) : Prop where
  owner : ∀ k ≤ text.length, m.owner? (address + k) = some c
  bytes : ∀ k ≤ text.length, c.bytes[address + k - c.base]? = (text ++ [0])[k]?
  nonzero : ∀ b ∈ text, b ≠ 0

namespace Memory

variable {m : Memory} {c : Cell} {address : Nat} {text : List UInt8}

theorem HoldsText.base_le (h : m.HoldsText c address text) : c.base ≤ address := by
  have owned : c.owns address :=
    List.find?_some (p := fun d : Cell => d.owns address) (h.owner 0 (Nat.zero_le _))
  exact (Cell.owns_iff.1 owned).1

/-- The text that a machine finds at the address is the one that the search has met. -/
theorem HoldsText.textAt {k : Machine} (h : k.memory.HoldsText c address text) :
    k.textAt address = text := by
  have found : k.memory.owner? address = some c := h.owner 0 (Nat.zero_le _)
  have front : text ++ [0] <+: c.bytes.toList.drop (address - c.base) := by
    rw [List.prefix_iff_getElem?]
    intro i inside
    have low := h.base_le
    have index : address - c.base + i = address + i - c.base := by omega
    rw [List.length_append, List.length_singleton] at inside
    rw [List.getElem?_drop, Array.getElem?_toList, index, h.bytes i (by omega),
      List.getElem?_eq_getElem]
  obtain ⟨rest, split⟩ := front
  have nonzero : ∀ b ∈ text, (b != 0) = true := fun b inside => bne_iff_ne.2 (h.nonzero b inside)
  unfold Machine.textAt Machine.bytesFrom
  rw [found]
  dsimp only
  rw [← split, List.append_assoc, List.takeWhile_append_of_pos nonzero]
  simp

/-- Whether or not a zero of a string ends it, the search reads no further than to the zero behind
the string. -/
theorem takeWhile_prefix_zero (s : List UInt8) : s.takeWhile (· != 0) ++ [0] <+: s ++ [0] := by
  induction s with
  | nil => exact List.prefix_rfl
  | cons b s ih =>
    by_cases zero : b = 0
    · simp [zero]
    · have kept : (b != 0) = true := bne_iff_ne.2 zero
      rw [List.takeWhile_cons_of_pos (p := (· != 0)) kept]
      exact List.cons_prefix_cons.2 ⟨rfl, ih⟩

/-- A new cell for a string holds the string up to its first zero. -/
theorem holdsText_of_allocText {s : List UInt8} {base : Nat} {n : Memory}
    (given : m.allocText s = .ok (base, n)) :
    n.cells = ⟨m.made, base, s.toArray.push 0⟩ :: m.cells ∧
      n.HoldsText ⟨m.made, base, s.toArray.push 0⟩ base (s.takeWhile (· != 0)) := by
  obtain ⟨cells, -⟩ := made_of_allocBytes given
  have short : (s.takeWhile (· != 0)).length ≤ s.length := (List.takeWhile_prefix _).length_le
  refine ⟨cells, ?_, ?_, ?_⟩
  · intro k le
    unfold owner?
    rw [cells, List.find?_cons_of_pos]
    rw [Cell.owns_iff]
    simp only [Cell.size, Array.size_push, List.size_toArray]
    omega
  · intro k le
    have inside : k < (s.takeWhile (· != 0) ++ [0]).length := by
      rw [List.length_append, List.length_singleton]
      omega
    have byte := List.prefix_iff_getElem?.1 (takeWhile_prefix_zero s) k inside
    rw [Nat.add_sub_cancel_left, List.getElem?_eq_getElem inside, ← byte]
    simp
  · intro b inside
    have kept : (b != 0) = true := List.mem_takeWhile_imp (p := (· != 0)) inside
    exact bne_iff_ne.1 kept

end Memory

namespace Machine

variable {m : Machine} {i : Instruction}

/-! ## The three instructions -/

/-- A `push_str` of a string that memory has room for. -/
theorem step_of_pushStr (found : m.next? = some i) (halt : m.halt = none) (op : i.op = .pushStr)
    {s : List UInt8} (known : m.program.string? i = some s) {base : Nat} {memory : Memory}
    (given : m.memory.allocText s = .ok (base, memory)) {slot : Value} {free : List Value}
    (room : m.stack.free = slot :: free) :
    m.step = (none,
      { m with ip := m.ip + 1, stack := ⟨.ptr base :: m.stack.live, free⟩, memory }) := by
  have made : Exec.pushCell (·.allocText s) m =
      .ok () { m with stack := ⟨.ptr base :: m.stack.live, free⟩, memory } := by
    have pushed := Exec.push_of_free (m := { m with memory }) (v := .ptr base) room
    unfold Exec.pushCell
    rw [Exec.bind_get]
    dsimp only
    rw [given]
    exact pushed
  have acted : Exec.effect i m = Exec.pushCell (·.allocText s) m := by
    unfold Program.string? at known
    unfold Exec.effect Exec.pushString
    rw [op]
    dsimp only
    rw [Exec.bind_get, known]
  rw [step_of_effect found halt (by rw [op]; rfl) (by rw [op]; decide), acted, made]

/-- A `push` of an immediate. -/
theorem step_of_push (found : m.next? = some i) (halt : m.halt = none) (op : i.op = .push)
    (immediate : i.tag ≠ .reg) {slot : Value} {free : List Value}
    (room : m.stack.free = slot :: free) :
    m.step = (none,
      { m with ip := m.ip + 1, stack := ⟨⟨i.value, i.tag⟩ :: m.stack.live, free⟩ }) := by
  have acted : Exec.effect i m = Exec.push ⟨i.value, i.tag⟩ m := by
    unfold Exec.effect Exec.pushOperand
    rw [op]
    dsimp only
    rw [if_neg immediate]
  rw [step_of_effect found halt (by rw [op]; rfl) (by rw [op]; decide), acted,
    Exec.push_of_free room]

/-- A call of `write` with the first stream and the address of a text in a cell. -/
theorem step_of_write (found : m.next? = some i) (halt : m.halt = none) (op : i.op = .native)
    (native : m.native? i.value.toInt = some .write) {stream ptr : Value} {live : List Value}
    (operands : m.stack.live = stream :: ptr :: live) (first : stream.word.toInt = 1)
    (typed : ptr.tag = .ptr) (nonnull : ptr.word.toNat ≠ 0) {c : Cell} {text : List UInt8}
    (holds : m.memory.HoldsText c ptr.word.toNat text) :
    m.step = (none, { m with
      ip := m.ip + 1
      stack := ⟨live, ptr :: stream :: m.stack.free⟩
      out := m.out ++ text.toArray }) := by
  let n : Machine := { m with stack := ⟨ptr :: live, stream :: m.stack.free⟩ }
  let o : Machine := { m with stack := ⟨live, ptr :: stream :: m.stack.free⟩ }
  have popped : Exec.popTyped .native .ptr n = .ok ptr o := by
    unfold Exec.popTyped
    rw [Exec.bind_of_ok (Exec.pop_of_live rfl), if_pos typed]
    rfl
  have addressed : Exec.popAddress .native n = .ok ptr.word.toNat o := by
    unfold Exec.popAddress
    rw [Exec.bind_of_ok popped, if_neg nonnull]
    rfl
  have texted : Exec.popText .native n = .ok text o := by
    have same : o.textAt ptr.word.toNat = text := Memory.HoldsText.textAt holds
    unfold Exec.popText
    rw [Exec.bind_of_ok addressed, Exec.bind_get, same]
    rfl
  have acted : Exec.effect i m = .ok () { o with out := m.out ++ text.toArray } := by
    unfold native? at native
    unfold Exec.effect Exec.callNative
    rw [op]
    dsimp only
    rw [Exec.bind_get, native]
    change (do
      let stream := (← Exec.pop).word.toInt
      let text ← Exec.popText .native
      if stream = 1 then Exec.write text
      else if stream = 2 then Exec.writeError text
      else throw (.unsupportedStream stream) : Exec Unit) m = _
    rw [Exec.bind_of_ok (Exec.pop_of_live operands), Exec.bind_of_ok texted, if_pos first]
    rfl
  rw [step_of_effect found halt (by rw [op]; rfl) (by rw [op]; decide), acted]

/-! ## Printing -/

theorem hasBuiltins_of_trace {p : Program} {loader : Loader} {past : List Machine}
    (run : (start p loader).Trace past m) : m.HasBuiltins := by
  induction run with
  | refl => exact hasBuiltins_start p loader
  | step _ run _ ih => exact hasBuiltins_step ih run
  | add _ added ih => exact hasBuiltins_of_runs ih (.add (.refl _) added)
  | place _ _ ih => exact ih

/-- **Strings print as they are stored.** Let a machine of a run stand in front of a `push_str` of
any string, a `push` of the integer one and a call of `write`, with two free slots and with memory
for the string at an address that is not null. Then the three instructions succeed. They append to
the output the string up to its first zero, all of it if it has none, leave the values on the stack
as they were and add one cell, of the string and a zero behind it. The search for the zero reads
bytes of this cell only. Nothing else of the machine has changed but the index. -/
theorem printed_of_trace {p : Program} {loader : Loader} {past : List Machine}
    (run : (start p loader).Trace past m) (halt : m.halt = none) {i j k : Instruction}
    (first : m.program.code[m.ip]? = some i) (second : m.program.code[m.ip + 1]? = some j)
    (third : m.program.code[m.ip + 2]? = some k) (string : i.op = .pushStr) {s : List UInt8}
    (known : m.program.string? i = some s)
    (stream : j.op = .push ∧ j.tag = .int ∧ j.value.toInt = 1)
    (write : k.op = .native ∧ k.value.toInt = 0) (slots : 2 ≤ m.stack.free.length) {base : Nat}
    {memory : Memory} (given : m.memory.allocText s = .ok (base, memory)) (nonnull : base ≠ 0) :
    (∀ count < 3, (m.after count).step.1 = none) ∧
      m.after 3 = { m with
        ip := m.ip + 3
        stack := (m.after 3).stack
        memory
        out := m.out ++ (s.takeWhile (· != 0)).toArray } ∧
      (m.after 3).stack.live = m.stack.live ∧
      memory.cells = ⟨m.memory.made, base, s.toArray.push 0⟩ :: m.memory.cells ∧
      (m.after 2).memory.HoldsText ⟨m.memory.made, base, s.toArray.push 0⟩ base
        (s.takeWhile (· != 0)) := by
  obtain ⟨pushes, tag, one⟩ := stream
  obtain ⟨calls, zero⟩ := write
  obtain ⟨slot, slot', free, room⟩ : ∃ slot slot' free, m.stack.free = slot :: slot' :: free := by
    match m.stack.free, slots with
    | slot :: slot' :: free, _ => exact ⟨slot, slot', free, rfl⟩
  obtain ⟨cells, holds⟩ := Memory.holdsText_of_allocText given
  have address : (Value.ptr base).word.toNat = base := by
    obtain ⟨-, -, below, -⟩ := Memory.made_of_allocBytes given
    have small : Memory.limit < 2 ^ 64 := by decide
    rw [Value.ptr, Word.toNat_ofNat, Nat.mod_eq_of_lt (by omega)]
  have native : m.native? k.value.toInt = some .write := by
    rw [native?, zero]
    exact (hasBuiltins_of_trace run).1
  have copied := step_of_pushStr first halt string known given room
  have after1 : m.after 1 = _ := congrArg Prod.snd copied
  have streamed := step_of_push (m := m.after 1) (i := j) (by rw [after1]; exact second)
    (by rw [after1]; exact halt) pushes (by rw [tag]; decide) (by rw [after1])
  have after2 : m.after 2 = _ := congrArg Prod.snd streamed
  rw [after1] at after2
  have holds' : (m.after 2).memory.HoldsText ⟨m.memory.made, base, s.toArray.push 0⟩ base
      (s.takeWhile (· != 0)) := by
    rw [after2]
    exact holds
  have operands : (m.after 2).stack.live = ⟨j.value, j.tag⟩ :: .ptr base :: m.stack.live := by
    rw [after2]
  have wrote := step_of_write (by rw [after2]; exact third) (by rw [after2]; exact halt) calls
    (by rw [after2]; exact native) operands one rfl (by rwa [address]) (by rwa [address])
  have after3 : m.after 3 = _ := congrArg Prod.snd wrote
  rw [after2] at after3
  refine ⟨?_, ?_, ?_, cells, holds'⟩
  · intro count lt
    match count, lt with
    | 0, _ => exact congrArg Prod.fst copied
    | 1, _ => exact congrArg Prod.fst streamed
    | 2, _ => exact congrArg Prod.fst wrote
  · rw [after3]
  · rw [after3]

/-- A program that prints a string with a zero inside. -/
def cutShort : Program where
  strings := [[0x68, 0x69, 0, 0x78]]
  code := #[{ op := .pushStr }, { op := .push, value := .ofNat 1 }, { op := .native }]

theorem printed_of_trace_cutShort :
    (∀ count < 3, ((start cutShort .none).after count).step.1 = none) ∧
      ((start cutShort .none).after 3).out = #[0x68, 0x69] ∧
      ((start cutShort .none).after 3).stack.live = [] ∧
      ((start cutShort .none).after 3).memory.cells =
        [⟨0, Memory.start, #[0x68, 0x69, 0, 0x78, 0]⟩] := by
  have slots : 2 ≤ (start cutShort .none).stack.free.length := by
    change 2 ≤ (List.replicate stackCapacity (Value.int 0)).length
    rw [List.length_replicate]
    decide
  have run : (start cutShort .none).Trace [] (start cutShort .none) := .refl
  have given : (start cutShort .none).memory.allocText [0x68, 0x69, 0, 0x78] =
      .ok (Memory.start, ⟨[⟨0, Memory.start, #[0x68, 0x69, 0, 0x78, 0]⟩], [], 1,
        Memory.start + 32⟩) := rfl
  obtain ⟨succeeds, last, live, cells, -⟩ := printed_of_trace run rfl rfl rfl rfl rfl rfl
    ⟨rfl, rfl, rfl⟩ ⟨rfl, rfl⟩ slots given (by decide)
  refine ⟨succeeds, ?_, live, ?_⟩
  · rw [last]
    rfl
  · rw [last, cells]
    rfl

end Machine

end StackLang
