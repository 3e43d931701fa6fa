import Mathlib.Data.List.Forall2
import Mathlib.Data.List.Pairwise
import StackLang.Proofs.Machine.Cells
import StackLang.Proofs.WordBytes

/-!
# Memory is a byte store

What a `read` finds in a cell is what was stored there last: the byte of the last `write` that
covers the address since the cell was made, or else the byte that the cell started with.
`Cell.recall` reads this byte off the machines of the past alone, and `recalled_of_trace` says that
it is the one in the cell. A `write` in turn changes the bytes that it covers and no others.

None of this depends on where cells lie as long as no two of them share an address. So the runs
considered, `Machine.Trace`, let the allocator choose any address for a cell that is apart from
the live ones, those of freed cells included. The allocator of the machine is one of these,
`exists_trace_of_runs`.
-/

namespace StackLang

open Bytecode

/-- Two cells share no address. -/
def Cell.Apart (c d : Cell) : Prop := ∀ address, c.owns address → d.owns address = false

instance : Std.Symm Cell.Apart where
  symm c d apart address owned := by
    rw [← Bool.not_eq_true]
    intro owned'
    rw [apart address owned'] at owned
    cases owned

/-- The byte at an offset of a cell as the machines of the past tell it, the last one first: what
a `write` has stored there since the cell was made, or what the cell started with. -/
def Cell.recall (c : Cell) (offset : Nat) : List Machine → Option UInt8
  | [] => none
  | m :: past =>
    if m.memory.made ≤ c.serial then m.filling?.bind fun bytes => bytes[offset]?
    else (m.stored? (c.base + offset)).or (c.recall offset past)

namespace Machine

/-- The cell that a step from `m` to `n` makes is apart from the live ones. -/
def MakesApart (m n : Machine) : Prop :=
  ∀ c ∈ n.memory.cells, c.serial = m.memory.made → ∀ d ∈ m.memory.cells, c.Apart d

/-- The runs of a machine, with the machines in front of each step, the last one first. Between two
steps the native table may grow, and the allocator may go on at another address. -/
inductive Trace (m : Machine) : List Machine → Machine → Prop where
  | refl : Trace m [] m
  | step {past : List Machine} {n o : Machine} {e : Option Fault} (before : Trace m past n)
      (run : n.step = (e, o)) (apart : n.MakesApart o) : Trace m (n :: past) o
  | add {past : List Machine} {n o : Machine} {f : Native} {index : Nat} (before : Trace m past n)
      (added : n.addNative f = .ok (index, o)) : Trace m past o
  | place {past : List Machine} {n : Machine} (before : Trace m past n) (address : Nat) :
      Trace m past { n with memory := { n.memory with next := address } }

/-- Every live cell is apart from the others and holds what the past tells. -/
structure Recalls (past : List Machine) (m : Machine) : Prop where
  low : m.Low
  numbered : ∀ c ∈ m.memory.cells, c.serial < m.memory.made
  apart : m.memory.cells.Pairwise Cell.Apart
  bytes : ∀ c ∈ m.memory.cells, ∀ offset < c.size, c.recall offset past = c.bytes[offset]?

end Machine

theorem Cell.recall_overwrite {f : Nat → Option UInt8} {c : Cell} (offset : Nat)
    (past : List Machine) : (c.overwrite f).recall offset past = c.recall offset past := by
  induction past with
  | nil => rfl
  | cons m past ih =>
    unfold Cell.recall
    rw [serial_overwrite, base_overwrite, ih]

namespace Machine

variable {m n : Machine} {past : List Machine}

/-- A step keeps the cells apart and adds itself to what they recall. -/
theorem Recalls.step (h : m.Recalls past) {e : Option Fault} (run : m.step = (e, n))
    (made : m.MakesApart n) : n.Recalls (m :: past) := by
  -- The cells that a step does not make recall its bytes in front of their own past.
  have older {c : Cell} (live : c ∈ m.memory.cells) (offset : Nat) :
      c.recall offset (m :: past) = (m.stored? (c.base + offset)).or (c.recall offset past) := by
    have before := h.numbered c live
    rw [Cell.recall, if_neg (by omega)]
  cases alters_of_step run h.low with
  | keep cells count =>
    have origin {c : Cell} (live : c ∈ n.memory.cells) :
        ∃ d ∈ m.memory.cells, d.overwrite m.stored? = c := List.mem_map.1 (cells.subset live)
    constructor
    case low =>
      intro c live
      obtain ⟨d, old, rfl⟩ := origin live
      simpa using h.low d old
    case numbered =>
      intro c live
      obtain ⟨d, old, rfl⟩ := origin live
      rw [count]
      exact h.numbered d old
    case apart =>
      refine List.Pairwise.sublist cells (List.Pairwise.map _ ?_ h.apart)
      intro c d apart address owned
      rw [Cell.owns_overwrite] at owned ⊢
      exact apart address owned
    case bytes =>
      intro c live offset inside
      obtain ⟨d, old, rfl⟩ := origin live
      rw [Cell.size_overwrite] at inside
      have byte : d.bytes[offset]? = some d.bytes[offset] := Array.getElem?_eq_getElem inside
      have known := h.bytes d old offset inside
      rw [Cell.recall_overwrite, older old, Cell.getElem?_overwrite, known, byte]
      cases m.stored? (d.base + offset) <;> rfl
  | @make base bytes content cells count below =>
    have quiet := stored?_of_filling content
    constructor
    case low =>
      intro c live
      rw [cells] at live
      obtain rfl | old := List.mem_cons.1 live
      · exact below
      · exact h.low c old
    case numbered =>
      intro c live
      rw [cells] at live
      rw [count]
      obtain rfl | old := List.mem_cons.1 live
      · exact Nat.lt_succ_self _
      · exact Nat.lt_succ_of_lt (h.numbered c old)
    case apart =>
      rw [cells]
      refine List.pairwise_cons.2 ⟨?_, h.apart⟩
      exact made _ (by simp [cells]) rfl
    case bytes =>
      intro c live offset inside
      rw [cells] at live
      obtain rfl | old := List.mem_cons.1 live
      · rw [Cell.recall, if_pos (Nat.le_refl _), content, Option.bind_some, Array.getElem?_toList]
      · rw [older old, quiet, Option.none_or]
        exact h.bytes c old offset inside

/-- Only the cells count. -/
theorem Recalls.of_memory (h : m.Recalls past) (cells : n.memory.cells = m.memory.cells)
    (made : n.memory.made = m.memory.made) : n.Recalls past where
  low := by
    intro c live
    rw [cells] at live
    exact h.low c live
  numbered := by
    rw [cells, made]
    exact h.numbered
  apart := by
    rw [cells]
    exact h.apart
  bytes := by
    rw [cells]
    exact h.bytes

theorem recalls_start (p : Program) (loader : Loader) : (start p loader).Recalls [] where
  low := by
    intro c live
    cases live
  numbered := by
    intro c live
    cases live
  apart := .nil
  bytes := by
    intro c live
    cases live

theorem recalls_of_trace {p : Program} {loader : Loader} (run : (start p loader).Trace past m) :
    m.Recalls past := by
  induction run with
  | refl => exact recalls_start p loader
  | step _ run apart ih => exact ih.step run apart
  | add _ added ih =>
    have same := memory_of_addNative added
    exact ih.of_memory (by rw [same]) (by rw [same])
  | place _ address ih => exact ih.of_memory rfl rfl

/-! ## The allocator of the machine -/

/-- The next cell with bytes is made behind the ones that there are. -/
def Fresh (m : Machine) : Prop :=
  ∀ c ∈ m.memory.cells, c.size = 0 ∨ c.base + c.size ≤ m.memory.next

theorem Fresh.step (h : m.Fresh) (recalls : m.Recalls past) {e : Option Fault}
    (run : m.step = (e, n)) : m.MakesApart n ∧ n.Fresh := by
  cases alters_of_step run recalls.low with
  | keep cells count next =>
    have origin {c : Cell} (live : c ∈ n.memory.cells) :
        ∃ d ∈ m.memory.cells, d.overwrite m.stored? = c := List.mem_map.1 (cells.subset live)
    constructor
    · intro c live new
      obtain ⟨d, old, rfl⟩ := origin live
      have before := recalls.numbered d old
      rw [Cell.serial_overwrite] at new
      omega
    · intro c live
      obtain ⟨d, old, rfl⟩ := origin live
      rw [next, Cell.size_overwrite, Cell.base_overwrite]
      exact h d old
  | @make base bytes _ cells count _ place next =>
    constructor
    · intro c live new d old address owned
      rw [cells] at live
      obtain rfl | other := List.mem_cons.1 live
      · -- The new cell is empty or begins where no cell with bytes has reached.
        obtain ⟨above, below⟩ := Cell.owns_iff.1 owned
        have before := h d old
        dsimp only [Cell.size] at above below
        rw [← Bool.not_eq_true, Cell.owns_iff]
        intro inside
        omega
      · have before := recalls.numbered c other
        omega
    · intro c live
      rw [cells] at live
      obtain rfl | old := List.mem_cons.1 live
      · obtain empty | ⟨-, above⟩ := place
        · exact .inl empty
        · exact .inr above
      · have before := h c old
        omega

/-- Every run of a machine is one whose cells are made apart. -/
theorem exists_trace_of_runs {p : Program} {loader : Loader} {done : List Nat}
    (run : (start p loader).Runs done m) : ∃ past, (start p loader).Trace past m := by
  have both : ∃ past, (start p loader).Trace past m ∧ m.Fresh := by
    induction run with
    | refl =>
      refine ⟨[], .refl, ?_⟩
      intro c live
      cases live
    | succeed _ run ih | fail _ run ih =>
      obtain ⟨past, trace, fresh⟩ := ih
      obtain ⟨apart, after⟩ := fresh.step (recalls_of_trace trace) run
      exact ⟨_, .step trace run apart, after⟩
    | add _ added ih =>
      obtain ⟨past, trace, fresh⟩ := ih
      refine ⟨past, .add trace added, ?_⟩
      unfold Fresh
      rw [memory_of_addNative added]
      exact fresh
  obtain ⟨past, trace, -⟩ := both
  exact ⟨past, trace⟩

theorem exists_runs_after (m : Machine) (count : Nat) : ∃ done, m.Runs done (m.after count) := by
  induction count with
  | zero => exact ⟨[], .refl m⟩
  | succ count ih =>
    obtain ⟨done, run⟩ := ih
    cases stepped : (m.after count).step with
    | mk e n =>
      have next : m.after (count + 1) = n := by rw [after, stepped]
      rw [next]
      cases e with
      | none => exact ⟨_, .succeed run stepped⟩
      | some e => exact ⟨_, .fail run stepped⟩

/-! ## Reading and writing -/

section Access

variable {c : Cell} {offset count : Nat}

/-- An address has one owner at most. -/
theorem Recalls.eq_of_owns (h : m.Recalls past) {d : Cell} (live : c ∈ m.memory.cells)
    (other : d ∈ m.memory.cells) {address : Nat} (owned : c.owns address)
    (owned' : d.owns address) : c = d := by
  by_contra ne
  have apart := h.apart.forall live other ne
  rw [apart address owned] at owned'
  cases owned'

theorem Recalls.bytesFrom (h : m.Recalls past) (live : c ∈ m.memory.cells)
    (inside : offset + count ≤ c.size) :
    (m.bytesFrom (c.base + offset)).take count = (c.bytes.toList.drop offset).take count := by
  cases count with
  | zero => simp
  | succ count =>
    have owned : c.owns (c.base + offset) := Cell.owns_iff.2 ⟨by omega, by omega⟩
    have owner : m.memory.owner? (c.base + offset) = some c := by
      unfold Memory.owner?
      cases found : m.memory.cells.find? (·.owns (c.base + offset)) with
      | none => exact absurd owned (List.find?_eq_none.1 found c live)
      | some d =>
        have other := List.mem_of_find?_eq_some found
        have owned' : d.owns (c.base + offset) :=
          List.find?_some (p := fun d : Cell => d.owns (c.base + offset)) found
        rw [h.eq_of_owns live other owned owned']
    unfold Machine.bytesFrom
    rw [owner]
    dsimp only
    rw [Nat.add_sub_cancel_left]

/-- The bytes of a word that is read inside a cell are those that the cell recalls, and zeros. -/
theorem Recalls.toBytes (h : m.Recalls past) (live : c ∈ m.memory.cells)
    (inside : offset + count ≤ c.size) (small : count ≤ 8) :
    (∀ k < count, ∃ b, c.recall (offset + k) past = some b ∧
      (Word.ofBytes ((m.bytesFrom (c.base + offset)).take count)).toBytes[k]? = some b) ∧
    ∀ k, count ≤ k → k < 8 →
      (Word.ofBytes ((m.bytesFrom (c.base + offset)).take count)).toBytes[k]? = some 0 := by
  have length : ((c.bytes.toList.drop offset).take count).length = count := by
    unfold Cell.size at inside
    rw [List.length_take, List.length_drop, Array.length_toList]
    omega
  rw [h.bytesFrom live inside, Word.toBytes_ofBytes_of_le (by omega), length]
  constructor
  · intro k lt
    have within : offset + k < c.bytes.size := by
      unfold Cell.size at inside
      omega
    refine ⟨c.bytes[offset + k], ?_, ?_⟩
    · rw [h.bytes c live _ within, Array.getElem?_eq_getElem within]
    · rw [List.getElem?_append_left (by omega), List.getElem?_take_of_lt lt, List.getElem?_drop,
        Array.getElem?_toList, Array.getElem?_eq_getElem within]
  · intro k ge lt
    rw [List.getElem?_append_right (by omega), List.getElem?_replicate, if_pos (by omega)]

/-- A `read` inside a cell pushes the bytes that the cell recalls and changes nothing else. -/
theorem Recalls.read (h : m.Recalls past) (live : c ∈ m.memory.cells) (run : m.step = (none, n))
    (op : m.next?.map Instruction.op = some .read) {code size ptr : Value} {rest : List Value}
    (operands : m.stack.live = code :: size :: ptr :: rest) (length : size.word.toInt = count)
    (address : ptr.word.toNat = c.base + offset) (inside : offset + count ≤ c.size) :
    ∃ w tag, Tag.ofInt? code.word.toInt = some tag ∧
      n = { m with ip := m.ip + 1, stack := n.stack } ∧ n.stack.live = ⟨w, tag⟩ :: rest ∧
      (∀ k < count, ∃ b, c.recall (offset + k) past = some b ∧ w.toBytes[k]? = some b) ∧
      ∀ k, count ≤ k → k < 8 → w.toBytes[k]? = some 0 := by
  obtain ⟨i, found, op⟩ := Option.map_eq_some_iff.1 op
  obtain ⟨o', acted, rfl⟩ :=
    exists_effect_of_step run found (by simp [op, Op.isJump]) (by simp [op])
  unfold Exec.effect at acted
  rw [op] at acted
  obtain ⟨code', size', ptr', o, tag, count', pops, few, small, known, last, pushed⟩ :=
    Exec.run_fetch acted
  have values := pops.values
  rw [operands] at values
  cases values
  obtain rfl : count' = count := by omega
  have recalls : o.Recalls past := h.of_memory (by rw [pops.memory]) (by rw [pops.memory])
  have liveAfter : c ∈ o.memory.cells := by rwa [pops.memory]
  obtain ⟨covered, zeros⟩ := recalls.toBytes liveAfter inside small
  rw [address] at pushed
  refine ⟨_, tag, known, ?_, pushed, covered, zeros⟩
  have first := pops.rest
  generalize o.stack = stack at first
  generalize o'.stack = stack' at last
  rw [last, first]

/-- Bytes that are stored inside a cell are in no other one. -/
theorem Recalls.getElem?_overwrite (h : m.Recalls past) (live : c ∈ m.memory.cells) {d : Cell}
    (other : d ∈ m.memory.cells) (inside : offset + count ≤ c.size) {bytes : List UInt8}
    (enough : count ≤ bytes.length) (i : Nat) :
    (d.overwrite (bytesAt (c.base + offset) (bytes.take count))).bytes[i]? =
      if d = c ∧ offset ≤ i ∧ i < offset + count then bytes[i - offset]? else d.bytes[i]? := by
  rw [Cell.getElem?_overwrite]
  by_cases within : i < d.bytes.size
  · have byte : d.bytes[i]? = some d.bytes[i] := Array.getElem?_eq_getElem within
    rw [byte, Option.map_some]
    cases stored : bytesAt (c.base + offset) (bytes.take count) (d.base + i) with
    | none =>
      rw [if_neg]
      · rfl
      rintro ⟨rfl, low, high⟩
      unfold bytesAt at stored
      rw [if_pos (by omega), List.getElem?_eq_none_iff, List.length_take] at stored
      omega
    | some b =>
      obtain ⟨low, high⟩ := bounds_of_bytesAt stored
      rw [List.length_take] at high
      have owned : c.owns (d.base + i) := Cell.owns_iff.2 ⟨by omega, by omega⟩
      have owned' : d.owns (d.base + i) := by
        refine Cell.owns_iff.2 ⟨by omega, ?_⟩
        unfold Cell.size
        omega
      obtain rfl := h.eq_of_owns live other owned owned'
      rw [if_pos ⟨rfl, by omega, by omega⟩]
      unfold bytesAt at stored
      have index : c.base + i - (c.base + offset) = i - offset := by omega
      rw [if_pos low, index, List.getElem?_take_of_lt (by omega)] at stored
      rw [stored]
      rfl
  · rw [Array.getElem?_eq_none (Nat.not_lt.1 within), if_neg]
    · rfl
    rintro ⟨rfl, -, high⟩
    unfold Cell.size at inside
    omega

/-- A `write` inside a cell changes the bytes that it covers, takes its operands and changes nothing
else. -/
theorem Recalls.write (h : m.Recalls past) (live : c ∈ m.memory.cells) (run : m.step = (none, n))
    (op : m.next?.map Instruction.op = some .write) {size v ptr : Value} {rest : List Value}
    (operands : m.stack.live = size :: v :: ptr :: rest) (length : size.word.toInt = count)
    (address : ptr.word.toNat = c.base + offset) (inside : offset + count ≤ c.size) :
    n = { m with ip := m.ip + 1, stack := n.stack, memory := n.memory } ∧ n.stack.live = rest ∧
      List.Forall₂ (fun d d' => d'.serial = d.serial ∧ d'.base = d.base ∧ d'.size = d.size ∧
        ∀ i : Nat, d'.bytes[i]? =
          if d = c ∧ offset ≤ i ∧ i < offset + count then v.word.toBytes[i - offset]?
          else d.bytes[i]?) m.memory.cells n.memory.cells := by
  obtain ⟨i, found, op⟩ := Option.map_eq_some_iff.1 op
  obtain ⟨size', v', ptr', o, count', pops, few, small, rfl, -⟩ := run_write run found op
  have values := pops.values
  rw [operands] at values
  cases values
  obtain rfl : count' = count := by omega
  have recalls : o.Recalls past := h.of_memory (by rw [pops.memory]) (by rw [pops.memory])
  have below := h.low c live
  have gap := limit_le_stackAddress
  have outside : ptr.word.toNat + (v.word.toBytes.take count').length ≤ stackAddress := by
    rw [List.length_take]
    omega
  have memory := memory_setBytes recalls.low ptr.word.toNat (v.word.toBytes.take count')
  rw [setBytes_eq outside, memory, pops.memory]
  have first := pops.rest
  refine ⟨?_, rfl, ?_⟩
  · dsimp only
    generalize o.stack = stack at first
    rw [first]
  · dsimp only
    rw [List.forall₂_map_right_iff, List.forall₂_same]
    intro d other
    refine ⟨rfl, rfl, Cell.size_overwrite, fun i => ?_⟩
    rw [address]
    exact h.getElem?_overwrite live other inside (by simpa using small) i

end Access

/-- **Memory is a byte store.** On any run, whatever addresses the allocator chooses for cells that
are apart, a `read` inside a live cell pushes a word with the tag that it is asked for, whose bytes
are what the last `write` to each address since the cell was made has stored there, or else what
the cell started with, and zeros behind them. A `write` inside a live cell changes exactly the bytes
that it covers, and apart from its three operands nothing else. -/
theorem byteStore_of_trace {p : Program} {loader : Loader} {past : List Machine} {m n : Machine}
    {c : Cell} {offset count : Nat} (run : (start p loader).Trace past m)
    (live : c ∈ m.memory.cells) (inside : offset + count ≤ c.size) (done : m.step = (none, n)) :
    (∀ code size ptr rest, m.next?.map Instruction.op = some .read →
      m.stack.live = code :: size :: ptr :: rest → size.word.toInt = count →
      ptr.word.toNat = c.base + offset →
      ∃ w tag, Tag.ofInt? code.word.toInt = some tag ∧
        n = { m with ip := m.ip + 1, stack := n.stack } ∧ n.stack.live = ⟨w, tag⟩ :: rest ∧
        (∀ k < count, ∃ b, c.recall (offset + k) past = some b ∧ w.toBytes[k]? = some b) ∧
        ∀ k, count ≤ k → k < 8 → w.toBytes[k]? = some 0) ∧
    ∀ size v ptr rest, m.next?.map Instruction.op = some .write →
      m.stack.live = size :: v :: ptr :: rest → size.word.toInt = count →
      ptr.word.toNat = c.base + offset →
      n = { m with ip := m.ip + 1, stack := n.stack, memory := n.memory } ∧ n.stack.live = rest ∧
        List.Forall₂ (fun d d' => d'.serial = d.serial ∧ d'.base = d.base ∧ d'.size = d.size ∧
          ∀ i : Nat, d'.bytes[i]? =
            if d = c ∧ offset ≤ i ∧ i < offset + count then v.word.toBytes[i - offset]?
            else d.bytes[i]?) m.memory.cells n.memory.cells := by
  have recalls := recalls_of_trace run
  constructor
  · intro code size ptr rest op operands length address
    exact recalls.read live done op operands length address inside
  · intro size v ptr rest op operands length address
    exact recalls.write live done op operands length address inside

/-- A program that makes a cell of four bytes, stores two and reads all four. -/
def storeAndRead : Program where
  code := #[{ op := .push, value := .ofNat 4 }, { op := .alloc }, { op := .mov, tag := .top },
    { op := .push, value := .ofNat 0x0A0B }, { op := .push, value := .ofNat 2 }, { op := .write },
    { op := .push, tag := .reg }, { op := .push, value := .ofNat 4 },
    { op := .push, value := .ofNat 3 }, { op := .read }]

/-- The machine in front of the `read`. -/
def reading : Machine := (start storeAndRead .none).after 9

/-- The cell that is read. -/
def readCell : Cell := ⟨0, Memory.start, #[0x0B, 0x0A, 0, 0]⟩

theorem byteStore_of_trace_reading :
    ∃ past, (start storeAndRead .none).Trace past reading ∧ readCell ∈ reading.memory.cells ∧
      reading.step.1 = none ∧ reading.step.2.stack.live = [⟨.ofNat 0x0A0B, .u32⟩] ∧
      readCell.recall 0 past = some 0x0B ∧ readCell.recall 3 past = some 0 := by
  obtain ⟨done, run⟩ := exists_runs_after (start storeAndRead .none) 9
  obtain ⟨past, trace⟩ := exists_trace_of_runs run
  have live : readCell ∈ reading.memory.cells := by decide +kernel
  have succeeds : reading.step.1 = none := by decide +kernel
  have pushed : reading.step.2.stack.live = [⟨.ofNat 0x0A0B, .u32⟩] := by decide +kernel
  have op : reading.next?.map Instruction.op = some .read := by decide +kernel
  have operands : reading.stack.live = [.int 3, .int 4, .ptr Memory.start] := by decide +kernel
  have inside : 0 + 4 ≤ readCell.size := by decide
  have stepped : reading.step = (none, reading.step.2) := Prod.ext succeeds rfl
  have store := byteStore_of_trace trace live inside stepped
  obtain ⟨w, tag, known, -, top, covered, -⟩ := store.1 _ _ _ _ op operands (by decide) (by decide)
  rw [pushed] at top
  cases top
  obtain ⟨b, first, low⟩ := covered 0 (by decide)
  obtain ⟨b', last, high⟩ := covered 3 (by decide)
  cases low
  cases high
  exact ⟨past, trace, live, succeeds, pushed, first, last⟩

end Machine

end StackLang
