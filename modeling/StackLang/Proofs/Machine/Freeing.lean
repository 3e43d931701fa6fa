import StackLang.Proofs.Machine.ByteStore
import StackLang.Proofs.Machine.Conservation

/-!
# Freeing is exact

`Memory.Uses` are the histories of a memory: cells are made and freed and bytes are stored in them,
in any order. The allocator is free to choose the address of a cell, that of a freed one included,
as long as the cell is apart from the live ones; the cells without bytes have one address for all
of them. `dealloc_of_uses` says what `dealloc` does at the end of every history: it frees the
newest cell that starts at the address and nothing else, and the address can not be freed again
before an allocation has returned it. The memory of a machine has such a history,
`exists_uses_of_runs`.
-/

namespace StackLang

open Bytecode

/-- What is asked of a memory, with the address that an allocation returns. -/
inductive Request where
  | alloc (size address : Nat)
  | allocText (text : List UInt8) (address : Nat)
  | dealloc (address : Nat)
  | store (address : Nat) (b : UInt8)

/-- The address that an allocation returns. -/
def Request.returned? : Request → Option Nat
  | .alloc _ address => some address
  | .allocText _ address => some address
  | .dealloc _ => none
  | .store _ _ => none

namespace Memory

/-- An allocator may put a cell there: it shares no address with a live one, and it is at the
address of the empty cells if it is empty, and only then. -/
structure Admits (m : Memory) (c : Cell) : Prop where
  apart : ∀ d ∈ m.cells, c.Apart d
  empty : c.base = emptyAddress ↔ c.size = 0

/-- The histories of a memory, with the requests that were made, the last one first. Only the
allocator knows where it goes on, so this can be another place at any time. -/
inductive Uses (m : Memory) : List Request → Memory → Prop where
  | refl : Uses m [] m
  | alloc {us : List Request} {n : Memory} {size address : Nat} (before : Uses m us n)
      (admits : n.Admits ⟨n.made, address, Array.replicate size 0⟩) :
      Uses m (.alloc size address :: us) (n.insertAt address (Array.replicate size 0))
  | allocText {us : List Request} {n : Memory} {text : List UInt8} {address : Nat}
      (before : Uses m us n) (admits : n.Admits ⟨n.made, address, text.toArray.push 0⟩) :
      Uses m (.allocText text address :: us) (n.insertAt address (text.toArray.push 0))
  | dealloc {us : List Request} {n o : Memory} {address : Nat} (before : Uses m us n)
      (freed : n.dealloc address = .ok o) : Uses m (.dealloc address :: us) o
  | refused {us : List Request} {n : Memory} {address : Nat} {e : Fault} (before : Uses m us n)
      (failed : n.dealloc address = .error e) : Uses m (.dealloc address :: us) n
  | store {us : List Request} {n : Memory} {c : Cell} {address : Nat} (before : Uses m us n)
      (live : c ∈ n.cells) (owned : c.owns address) (b : UInt8) :
      Uses m (.store address b :: us) (n.setByte address b)
  | place {us : List Request} {n : Memory} (before : Uses m us n) (next : Nat) :
      Uses m us { n with next }

variable {m n o : Memory} {us : List Request} {address : Nat}

/-! ## What one request does -/

theorem dealloc_eq_ok_iff : (∃ n, m.dealloc address = .ok n) ↔ ∃ c ∈ m.cells, c.base = address := by
  unfold dealloc
  cases found : m.cells.find? (·.base == address) with
  | none => simpa using found
  | some c =>
    have live := List.mem_of_find?_eq_some found
    have starts : (c.base == address) = true :=
      List.find?_some (p := fun c : Cell => c.base == address) found
    exact ⟨fun _ => ⟨c, live, by simpa using starts⟩, fun _ => ⟨_, rfl⟩⟩

theorem dealloc_eq_error {e : Fault} (h : m.dealloc address = .error e) : e = .invalidFree := by
  unfold dealloc at h
  split at h
  · cases h
    rfl
  · cases h

/-! ## What all histories keep -/

/-- The live cells come one after the other, no two of them share an address, and only the empty
ones are at the address of empty cells. -/
structure Sound (m : Memory) : Prop where
  numbered : m.Numbered
  newest : m.cells.Pairwise fun c d => d.serial < c.serial
  apart : m.cells.Pairwise Cell.Apart
  empty : ∀ c ∈ m.cells, c.base = emptyAddress ↔ c.size = 0

theorem sound_empty : empty.Sound := by
  constructor
  case numbered =>
    intro c live
    cases live
  case newest => exact .nil
  case apart => exact .nil
  case empty =>
    intro c live
    cases live

theorem Sound.insertAt (h : m.Sound) {bytes : Array UInt8}
    (admits : m.Admits ⟨m.made, address, bytes⟩) : (m.insertAt address bytes).Sound := by
  constructor
  case numbered =>
    intro c live
    obtain rfl | old := List.mem_cons.1 live
    · exact Nat.lt_succ_self _
    · exact Nat.lt_succ_of_lt (h.numbered c old)
  case newest => exact List.pairwise_cons.2 ⟨h.numbered, h.newest⟩
  case apart => exact List.pairwise_cons.2 ⟨admits.apart, h.apart⟩
  case empty => exact List.forall_mem_cons.2 ⟨admits.empty, h.empty⟩

theorem Sound.dealloc (h : m.Sound) (freed : m.dealloc address = .ok n) : n.Sound := by
  obtain ⟨cells, made, -⟩ := Memory.shrinks_dealloc freed
  constructor
  case numbered =>
    intro c live
    rw [made]
    exact h.numbered c (cells.subset live)
  case newest => exact h.newest.sublist cells
  case apart => exact h.apart.sublist cells
  case empty => exact fun c live => h.empty c (cells.subset live)

theorem Sound.setByte (h : m.Sound) (address : Nat) (b : UInt8) : (m.setByte address b).Sound := by
  rw [setByte_eq]
  constructor
  case numbered =>
    intro c live
    obtain ⟨d, old, rfl⟩ := List.mem_map.1 live
    exact h.numbered d old
  case newest => exact List.Pairwise.map _ (fun _ _ newer => newer) h.newest
  case apart =>
    refine List.Pairwise.map _ (fun c d apart a owned => ?_) h.apart
    rw [Cell.owns_overwrite] at owned ⊢
    exact apart a owned
  case empty =>
    intro c live
    obtain ⟨d, old, rfl⟩ := List.mem_map.1 live
    rw [Cell.base_overwrite, Cell.size_overwrite]
    exact h.empty d old

theorem Uses.sound (run : m.Uses us n) (h : m.Sound) : n.Sound := by
  induction run with
  | refl => exact h
  | alloc _ admits ih => exact ih.insertAt admits
  | allocText _ admits ih => exact ih.insertAt admits
  | dealloc _ freed ih => exact ih.dealloc freed
  | refused _ _ ih => exact ih
  | store _ _ _ b ih => exact ih.setByte _ b
  | place _ next ih => exact ⟨ih.numbered, ih.newest, ih.apart, ih.empty⟩

/-! ## Addresses that are not returned -/

/-- If no allocation returns the address, then the cells that start there are old ones. -/
theorem Uses.exists_of_base (run : m.Uses us n) (unreturned : ∀ r ∈ us, r.returned? ≠ some address)
    {c : Cell} (live : c ∈ n.cells) (base : c.base = address) :
    ∃ d ∈ m.cells, d.base = address ∧ d.serial = c.serial ∧ d.size = c.size := by
  induction run generalizing c with
  | refl => exact ⟨c, live, base, rfl, rfl⟩
  | @alloc us n size other _ _ ih | @allocText us n text other _ _ ih =>
    rw [List.forall_mem_cons] at unreturned
    obtain ⟨here, earlier⟩ := unreturned
    obtain rfl | old := List.mem_cons.1 live
    · exact absurd (congrArg some base) here
    · exact ih earlier old base
  | dealloc _ freed ih =>
    obtain ⟨cells, -, -⟩ := Memory.shrinks_dealloc freed
    exact ih (List.forall_mem_cons.1 unreturned).2 (cells.subset live) base
  | refused _ _ ih => exact ih (List.forall_mem_cons.1 unreturned).2 live base
  | @store us n e other _ _ _ b ih =>
    rw [setByte_eq] at live
    obtain ⟨d, old, rfl⟩ := List.mem_map.1 live
    rw [Cell.serial_overwrite, Cell.size_overwrite]
    exact ih (List.forall_mem_cons.1 unreturned).2 old base
  | place _ _ ih => exact ih unreturned live base

/-- Of two cells at one address, one at least is empty, and then so is the other. -/
theorem Sound.size_eq_zero (h : m.Sound) {newer older : List Cell} {c d : Cell}
    (split : m.cells = newer ++ c :: older) (other : d ∈ newer ++ older) (same : d.base = c.base) :
    d.size = 0 := by
  have moved : (c :: (newer ++ older)).Pairwise Cell.Apart := by
    have apart := h.apart
    rw [split] at apart
    exact (List.perm_middle.pairwise_iff fun apart => Std.Symm.symm _ _ apart).1 apart
  have live : c ∈ m.cells ∧ d ∈ m.cells := by
    rw [split]
    simp only [List.mem_append, List.mem_cons] at other ⊢
    tauto
  by_contra filled
  have full : c.size ≠ 0 := by
    intro none
    have there := (h.empty c live.1).2 none
    exact filled ((h.empty d live.2).1 (same.trans there))
  have owned : c.owns c.base := Cell.owns_iff.2 ⟨Nat.le_refl _, by omega⟩
  have owned' : d.owns c.base := Cell.owns_iff.2 ⟨by omega, by omega⟩
  rw [(List.pairwise_cons.1 moved).1 d other c.base owned] at owned'
  cases owned'

/-! ## The allocator of the machine -/

/-- The next cell with bytes is made behind the ones that there are. -/
structure Fresh (m : Memory) : Prop where
  above : emptyAddress < m.next
  behind : ∀ c ∈ m.cells, c.size = 0 ∨ c.base + c.size ≤ m.next

theorem fresh_empty : empty.Fresh where
  above := by decide
  behind := by
    intro c live
    cases live

theorem Fresh.dealloc (h : m.Fresh) (freed : m.dealloc address = .ok n) : n.Fresh := by
  obtain ⟨cells, -, next⟩ := Memory.shrinks_dealloc freed
  constructor
  · rw [next]
    exact h.above
  · intro c live
    rw [next]
    exact h.behind c (cells.subset live)

theorem Fresh.setByte (h : m.Fresh) (address : Nat) (b : UInt8) : (m.setByte address b).Fresh := by
  rw [setByte_eq]
  refine ⟨h.above, fun c live => ?_⟩
  obtain ⟨d, old, rfl⟩ := List.mem_map.1 live
  rw [Cell.base_overwrite, Cell.size_overwrite]
  exact h.behind d old

/-- The allocator keeps to what an allocator may do. -/
theorem Fresh.allocBytes (h : m.Fresh) {bytes : Array UInt8}
    (given : m.allocBytes bytes = .ok (address, n)) :
    m.Admits ⟨m.made, address, bytes⟩ ∧ n.Fresh ∧
      n = { m.insertAt address bytes with next := n.next } := by
  unfold Memory.allocBytes at given
  split at given
  · rename_i none
    cases given
    have admits : m.Admits ⟨m.made, emptyAddress, bytes⟩ := by
      refine ⟨fun d _ a owned => ?_, by simp [Cell.size, none]⟩
      obtain ⟨low, high⟩ := Cell.owns_iff.1 owned
      simp only [Cell.size, none] at low high
      omega
    refine ⟨admits, ⟨h.above, ?_⟩, rfl⟩
    exact List.forall_mem_cons.2 ⟨.inl none, h.behind⟩
  · rename_i some
    dsimp only at given
    split at given
    · cases given
    cases given
    have above := h.above
    have admits : m.Admits ⟨m.made, m.next, bytes⟩ := by
      refine ⟨fun d old a owned => ?_, ?_⟩
      · obtain ⟨low, high⟩ := Cell.owns_iff.1 owned
        have behind := h.behind d old
        rw [← Bool.not_eq_true, Cell.owns_iff]
        dsimp only at low high
        omega
      · simp only [Cell.size, some, iff_false]
        omega
    refine ⟨admits, ⟨?_, ?_⟩, rfl⟩
    · dsimp only
      omega
    · refine List.forall_mem_cons.2 ⟨.inr ?_, fun d old => ?_⟩
      · dsimp only [Cell.size]
        unfold gap
        omega
      · have behind := h.behind d old
        dsimp only
        omega

theorem Uses.alloc_own {size : Nat} (run : m.Uses us n) (fresh : n.Fresh)
    (given : n.alloc size = .ok (address, o)) :
    m.Uses (.alloc size address :: us) o ∧ o.Fresh := by
  unfold Memory.alloc at given
  split at given
  · cases given
  · obtain ⟨admits, fresh', shape⟩ := fresh.allocBytes given
    rw [shape] at fresh' ⊢
    exact ⟨.place (.alloc run admits) _, fresh'⟩

theorem Uses.allocText_own {text : List UInt8} (run : m.Uses us n) (fresh : n.Fresh)
    (given : n.allocText text = .ok (address, o)) :
    m.Uses (.allocText text address :: us) o ∧ o.Fresh := by
  obtain ⟨admits, fresh', shape⟩ := fresh.allocBytes given
  rw [shape] at fresh' ⊢
  exact ⟨.place (.allocText run admits) _, fresh'⟩

end Memory

/-! ## The memory of a machine -/

/-- A memory that has been used with the allocator of the machine. -/
def Memory.Used (m : Memory) : Prop := (∃ us, Memory.empty.Uses us m) ∧ m.Fresh

theorem Memory.Used.setByte {m : Memory} (h : m.Used) (address : Nat) (b : UInt8) :
    (m.setByte address b).Used := by
  obtain ⟨⟨us, run⟩, fresh⟩ := h
  refine ⟨?_, fresh.setByte address b⟩
  by_cases owned : ∃ c ∈ m.cells, c.owns address
  · obtain ⟨c, live, owned⟩ := owned
    exact ⟨_, .store run live owned b⟩
  · -- A byte that is stored in no cell changes nothing.
    rw [not_exists] at owned
    refine ⟨us, ?_⟩
    rwa [Memory.setByte_eq, Cell.map_overwrite_of_none]
    intro c live a inside
    rw [if_neg]
    rintro rfl
    exact owned c ⟨live, inside⟩

namespace Machine

variable {m n : Machine}

theorem used_setBytes (h : m.memory.Used) (address : Nat) (bytes : List UInt8) :
    (m.setBytes address bytes).memory.Used := by
  induction bytes generalizing m address with
  | nil => exact h
  | cons b rest ih =>
    refine ih ?_ (address + 1)
    unfold setByte
    split
    · exact h
    · exact h.setByte address b

theorem ends_used_deallocate (h : m.memory.Used) :
    Exec.deallocate.Ends m fun n => n.memory.Used := by
  obtain ⟨⟨us, run⟩, fresh⟩ := h
  unfold Exec.deallocate
  refine ((Exec.takes_popTyped _ _).leaves m).bind ?_ fun v o popped => ?_
  · intro n same
    rw [same]
    exact ⟨⟨us, run⟩, fresh⟩
  · obtain ⟨pops, -⟩ := Exec.run_popTyped popped
    rw [← pops.memory] at run fresh
    unfold Exec.Ends
    rw [Exec.bind_get]
    dsimp only
    cases freed : o.memory.dealloc v.word.toNat with
    | error e => exact ⟨⟨us, run⟩, fresh⟩
    | ok memory => exact ⟨⟨_, .dealloc run freed⟩, fresh.dealloc freed⟩

/-- A `dealloc` that fails leaves memory alone. -/
theorem memory_of_dealloc_fault {e : Fault} (run : m.step = (some e, n))
    (op : m.next?.map Instruction.op = some .dealloc) : n.memory = m.memory := by
  obtain rfl | ⟨i, found, failed⟩ := exists_execute_of_fault run
  · rfl
  rw [found, Option.map_some, Option.some_inj] at op
  have spares : Exec.Spares Exec.deallocate := by
    refine Exec.spares_bind (Exec.takes_popTyped _ _).leaves fun v o e' n' failed' => ?_
    rw [Exec.bind_get] at failed'
    cases freed : o.memory.dealloc v.word.toNat with
    | error _ =>
      rw [freed] at failed'
      cases failed'
      rfl
    | ok _ =>
      rw [freed] at failed'
      cases failed'
  have effect : Exec.effect i = Exec.deallocate := by
    unfold Exec.effect
    rw [op]
  rw [Exec.execute_eq (by rw [op]; rfl) (by rw [op]; decide), effect] at failed
  exact spares m e n (Exec.error_of_bind_pure failed)

theorem ends_used_store (h : m.memory.Used) : Exec.store.Ends m fun n => n.memory.Used := by
  unfold Exec.Ends
  cases run : Exec.store m with
  | error e n =>
    dsimp only
    rw [Exec.spares_store m e n run]
    exact h
  | ok a n =>
    obtain ⟨size, v, ptr, o, count, pops, -, -, rfl⟩ := Exec.run_store run
    rw [← pops.memory] at h
    exact used_setBytes h _ _

/-- A memory that has been used stays one. -/
theorem used_of_step {e : Option Fault} (run : m.step = (e, n)) (h : m.memory.Used) :
    n.memory.Used := by
  obtain ⟨⟨us, uses⟩, fresh⟩ := h
  have used : m.memory.Used := ⟨⟨us, uses⟩, fresh⟩
  cases found : m.next? with
  | none =>
    refine memory_of_step run used fun i here => ?_
    rw [found] at here
    cases here
  | some i =>
    -- Four instructions change memory, each by its effect.
    have changes (op : i.op = .pushStr ∨ i.op = .alloc ∨ i.op = .dealloc ∨ i.op = .write) :
        i.op.isJump = false ∧ i.op ≠ .ret ∧ (Exec.effect i).Ends m fun n => n.memory.Used := by
      unfold Exec.effect
      obtain op | op | op | op := op
      · rw [op]
        refine ⟨rfl, by decide, (Exec.ends_pushString i m).imp fun o made => ?_⟩
        obtain same | ⟨text, address, -, made⟩ := made
        · rwa [same]
        · obtain ⟨uses', fresh'⟩ := uses.allocText_own fresh made
          exact ⟨⟨_, uses'⟩, fresh'⟩
      · rw [op]
        refine ⟨rfl, by decide, (Exec.ends_allocate m).imp fun o made => ?_⟩
        obtain same | ⟨size, rest, address, -, made⟩ := made
        · rwa [same]
        · obtain ⟨uses', fresh'⟩ := uses.alloc_own fresh made
          exact ⟨⟨_, uses'⟩, fresh'⟩
      · rw [op]
        exact ⟨rfl, by decide, ends_used_deallocate used⟩
      · rw [op]
        exact ⟨rfl, by decide, ends_used_store used⟩
    by_cases op : i.op = .pushStr ∨ i.op = .alloc ∨ i.op = .dealloc ∨ i.op = .write
    · obtain ⟨jump, ret, acted⟩ := changes op
      exact memory_of_effect run used found jump ret acted
    · simp only [not_or] at op
      obtain ⟨string, alloc, dealloc, store⟩ := op
      refine memory_of_step run used fun j here => ?_
      obtain rfl : i = j := Option.some.inj (found.symm.trans here)
      refine (Exec.leaves_execute string alloc dealloc store m).imp fun o same => ?_
      rwa [same]

/-- The memory of every machine has a history. -/
theorem exists_uses_of_runs {p : Program} {loader : Loader} {done : List Nat}
    (run : (start p loader).Runs done m) : ∃ us, Memory.empty.Uses us m.memory := by
  have used : m.memory.Used := by
    generalize started : start p loader = first at run
    induction run with
    | refl =>
      subst started
      exact ⟨⟨[], .refl⟩, Memory.fresh_empty⟩
    | succeed _ step ih => exact used_of_step step ih
    | fail _ step ih => exact used_of_step step ih
    | add _ added ih =>
      rw [memory_of_addNative added]
      exact ih
  exact used.1

end Machine

namespace Memory

variable {m n o : Memory} {us : List Request} {address : Nat}

/-! ## Freeing -/

/-- **Freeing is exact.** At the end of every history of a memory, `dealloc` succeeds just if a
live cell starts at the address. Otherwise it fails as an invalid free, and an instruction that
fails so leaves memory as it is. It takes the newest of the cells that start there and leaves the
others as they are, in their order. Behind it, as long as no allocation returns the address, the
address can be freed only while an empty cell is live there. -/
theorem dealloc_of_uses (run : empty.Uses us m) (address : Nat) :
    ((∃ n, m.dealloc address = .ok n) ↔ ∃ c ∈ m.cells, c.base = address) ∧
    (∀ e, m.dealloc address = .error e → e = .invalidFree) ∧
    (∀ (k k' : Machine) e, k.memory = m → k.next?.map Instruction.op = some .dealloc →
      k.step = (some e, k') → k'.memory = m) ∧
    ∀ n, m.dealloc address = .ok n →
      (∃ newer c older, m.cells = newer ++ c :: older ∧ n.cells = newer ++ older ∧
        c.base = address ∧ ∀ d ∈ n.cells, d.base = address → d.serial < c.serial) ∧
      ∀ later o, n.Uses later o → (∀ r ∈ later, r.returned? ≠ some address) →
        (∃ o', o.dealloc address = .ok o') → ∃ d ∈ o.cells, d.base = address ∧ d.size = 0 := by
  have sound := run.sound sound_empty
  refine ⟨dealloc_eq_ok_iff, fun e => dealloc_eq_error, ?_, fun n freed => ?_⟩
  · rintro k k' e rfl op failed
    exact Machine.memory_of_dealloc_fault failed op
  obtain ⟨newer, c, older, -, split, rest, base, others⟩ := split_of_dealloc freed
  constructor
  · refine ⟨newer, c, older, split, rest, base, fun d live same => ?_⟩
    have newest := sound.newest
    rw [split, List.pairwise_append, List.pairwise_cons] at newest
    rw [rest] at live
    obtain new | old := List.mem_append.1 live
    · exact absurd same (others d new)
    · exact newest.2.1.1 d old
  · intro later o behind unreturned again
    obtain ⟨d, live, same⟩ := dealloc_eq_ok_iff.1 again
    obtain ⟨d', live', same', -, size⟩ := behind.exists_of_base unreturned live same
    rw [rest] at live'
    have none := sound.size_eq_zero split live' (same'.trans base.symm)
    exact ⟨d, live, same, size ▸ none⟩

/-- A memory with two bytes, a text and two empty cells, the newest one first. -/
def fourCells : Memory :=
  ⟨[⟨3, 1, #[]⟩, ⟨2, 1, #[]⟩, ⟨1, 16, #[0x61, 0]⟩, ⟨0, 32, #[0, 7]⟩], [], 4, start⟩

/-- An empty cell can be put to the other empty ones. -/
theorem admits_nothing (m : Memory) : m.Admits ⟨m.made, emptyAddress, Array.replicate 0 0⟩ := by
  refine ⟨fun d _ address owned => ?_, by simp [Cell.size]⟩
  obtain ⟨low, high⟩ := Cell.owns_iff.1 owned
  change address < emptyAddress + 0 at high
  dsimp only at low
  omega

theorem exists_uses_fourCells : ∃ us, empty.Uses us fourCells := by
  have first : empty.Admits ⟨0, 32, Array.replicate 2 0⟩ := ⟨nofun, by decide⟩
  have bytes : empty.Uses [.alloc 2 32] (empty.insertAt 32 (Array.replicate 2 0)) :=
    .alloc .refl first
  have second : (empty.insertAt 32 (Array.replicate 2 0)).Admits ⟨1, 16, #[0x61, 0]⟩ := by
    refine ⟨fun d live address owned => ?_, by decide⟩
    obtain rfl := List.mem_singleton.1 live
    obtain ⟨-, high⟩ := Cell.owns_iff.1 owned
    rw [← Bool.not_eq_true, Cell.owns_iff]
    intro inside
    have below : address < 16 + 2 := high
    have above : 32 ≤ address := inside.1
    omega
  have text : empty.Uses [.allocText [0x61] 16, .alloc 2 32]
      ((empty.insertAt 32 (Array.replicate 2 0)).insertAt 16 #[0x61, 0]) := .allocText bytes second
  have empties := Uses.alloc (.alloc text (admits_nothing _)) (admits_nothing _)
  have owned : Cell.owns ⟨0, 32, #[0, 0]⟩ 33 := by decide
  exact ⟨_, .store empties (by decide) owned 7⟩

/-- The newer of the two empty cells goes first, and the address of the bytes can be freed once. -/
theorem dealloc_of_uses_fourCells :
    (∃ us, empty.Uses us fourCells) ∧
      (∃ n, fourCells.dealloc 1 = .ok n ∧ n.cells = fourCells.cells.drop 1) ∧
      ∃ n, fourCells.dealloc 32 = .ok n ∧ n.cells = fourCells.cells.take 3 ∧
        ∀ o, n.dealloc 32 ≠ .ok o := by
  obtain ⟨us, run⟩ := exists_uses_fourCells
  refine ⟨⟨us, run⟩, ⟨_, rfl, rfl⟩, _, rfl, rfl, fun o again => ?_⟩
  obtain ⟨-, -, -, freed⟩ := dealloc_of_uses run 32
  obtain ⟨-, once⟩ := freed _ rfl
  obtain ⟨d, live, base, -⟩ := once [] _ .refl nofun ⟨o, again⟩
  have noneThere : ∀ d ∈ fourCells.cells.take 3, d.base ≠ 32 := by decide
  exact noneThere d live base

end Memory

end StackLang
